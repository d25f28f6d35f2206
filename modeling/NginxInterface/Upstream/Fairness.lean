import Mathlib.Algebra.BigOperators.Fin
import NginxInterface.Foundation.Rotation
import NginxInterface.Upstream.Accounts

/-! # Shares of the peers

While nothing fails, a worker gives the primary peers of an upstream to its requests by a
smooth weighted rotation, however the requests overlap. Every stretch of as many requests as
the weights add up to gives each peer its weight.
-/

namespace NginxInterface.Upstream

open Foundation

/-! ## Runs without failures -/

/-- A server that is always in use. -/
structure Server.Plain (server : Server) : Prop where
  weight : 0 < server.weight
  up : server.down = false
  unlimited : server.maxConns = 0

/-- No request fails or asks for another peer. -/
def WorkerStep.Smooth : WorkerStep → Prop
  | .release _ _ failed again => failed = false ∧ again = false
  | _ => True

instance (step : WorkerStep) : Decidable step.Smooth := by
  cases step <;> unfold WorkerStep.Smooth <;> infer_instance

/-- A peer that has never failed. -/
structure Peer.Smooth (share : Nat) (credit : Int) (peer : Peer) : Prop where
  weight : peer.weight = share
  effective : peer.effectiveWeight = share
  current : peer.currentWeight = credit
  up : peer.down = false
  unlimited : peer.maxConns = 0
  fails : peer.fails = 0

namespace Peer.Smooth

variable {share : Nat} {credit : Int} {peer : Peer}

theorem available (h : peer.Smooth share credit) (now : Int) : peer.unavailable now = false := by
  unfold Peer.unavailable Peer.disabled Peer.full
  rw [h.up, h.unlimited, h.fails]
  cases peer.maxFails <;> simp

theorem gain (h : peer.Smooth share credit) (hlow : -2 ^ 63 ≤ credit + share)
    (hhigh : credit + share < 2 ^ 63) : peer.gain.Smooth share (credit + share) := by
  have hless : ¬peer.effectiveWeight < peer.weight := by
    rw [h.effective, h.weight]
    exact Int.lt_irrefl _
  refine { h with effective := ?_, current := ?_ }
  · rw [Peer.gain]
    exact (if_neg hless).trans h.effective
  · rw [Peer.gain, h.current, h.effective]
    exact ngxInt_of_range hlow hhigh

theorem chosen (h : peer.Smooth share credit) (now : Int) {total : Int}
    (hlow : -2 ^ 63 ≤ credit - total) (hhigh : credit - total < 2 ^ 63) :
    (peer.chosen now total).Smooth share (credit - total) :=
  { h with current := by rw [Peer.chosen, h.current]; exact ngxInt_of_range hlow hhigh }

theorem connect (h : peer.Smooth share credit) : peer.connect.Smooth share credit := { h with }

theorem disconnect (h : peer.Smooth share credit) : peer.disconnect.Smooth share credit :=
  { h with }

theorem live (h : peer.Smooth share credit) : peer.live.Smooth share credit := by
  unfold Peer.live
  split
  · exact { h with fails := rfl }
  · exact h

theorem release (h : peer.Smooth share credit) (now : Int) :
    (peer.release now false).Smooth share credit := { h.live with }

end Peer.Smooth

/-! ## A turn -/

/-- The peers are those of a rotation with these weights and credits. -/
structure Peers.Follows {n : Nat} (weight : Fin n → Nat) (credit : Fin n → Int)
    (peers : List Peer) : Prop where
  length : peers.length = n
  smooth : ∀ j : Fin n, ∃ peer, peers[j.val]? = some peer ∧ peer.Smooth (weight j) (credit j)

namespace Peers.Follows

variable {n : Nat} {weight : Fin n → Nat} {credit : Fin n → Int} {peers : List Peer}

theorem smooth_of_getElem? (h : Follows weight credit peers) {j : Nat} {peer : Peer}
    (hpeer : peers[j]? = some peer) :
    ∃ hj : j < n, peer.Smooth (weight ⟨j, hj⟩) (credit ⟨j, hj⟩) := by
  have hj : j < n := h.length ▸ (List.getElem?_eq_some_iff.mp hpeer).1
  obtain ⟨same, hsame, hsmooth⟩ := h.smooth ⟨j, hj⟩
  rw [hpeer, Option.some.injEq] at hsame
  exact ⟨hj, hsame ▸ hsmooth⟩

theorem modify (h : Follows weight credit peers) (i : Nat) {change : Peer → Peer}
    (hchange : ∀ {share credit peer}, peer.Smooth share credit →
      (change peer).Smooth share credit) :
    Follows weight credit (peers.modify i change) where
  length := by rw [List.length_modify, h.length]
  smooth := by
    intro j
    obtain ⟨peer, hpeer, hsmooth⟩ := h.smooth j
    rw [List.getElem?_modify, hpeer]
    by_cases hj : i = j.val
    · exact ⟨change peer, by simp [hj], hchange hsmooth⟩
    · exact ⟨peer, by simp [hj], hsmooth⟩

/-- All peers take part in the choice. -/
theorem takesPart (h : Follows weight credit peers) {tried : Tried}
    (htried : ∀ j < n, BitArray.test tried j = false) (now : Int) {j : Nat} {peer : Peer}
    (hpeer : peers[j]? = some peer) : skipped tried now j peer = false := by
  obtain ⟨hj, hsmooth⟩ := h.smooth_of_getElem? hpeer
  rw [skipped, htried j hj, hsmooth.available now, Bool.false_or]

theorem map_effectiveWeight (h : Follows weight credit peers) :
    peers.map Peer.effectiveWeight = List.ofFn fun j => (weight j : Int) := by
  apply List.ext_getElem?
  intro j
  rw [List.getElem?_map, List.getElem?_ofFn]
  split
  next hj =>
    obtain ⟨peer, hpeer, hsmooth⟩ := h.smooth ⟨j, hj⟩
    rw [hpeer, Option.map_some, hsmooth.effective]
  next hj =>
    have hlength := h.length
    rw [List.getElem?_eq_none (by omega), Option.map_none]

end Peers.Follows

theorem gained_of_all {tried : Tried} {now : Int} {i : Nat} {peers : List Peer}
    (h : ∀ j peer, peers[j]? = some peer → skipped tried now (i + j) peer = false) :
    gained tried now i peers = (peers.map Peer.effectiveWeight).sum := by
  induction peers generalizing i with
  | nil => rfl
  | cons peer rest ih =>
      have hrest : ∀ j other, rest[j]? = some other →
          skipped tried now (i + 1 + j) other = false := by
        intro j other hother
        have htakes := h (j + 1) other hother
        rwa [show i + (j + 1) = i + 1 + j by omega] at htakes
      have hfirst := h 0 peer rfl
      rw [Nat.add_zero] at hfirst
      rw [gained, hfirst, ih hrest, List.map_cons, List.sum_cons]
      rfl

/-- The sums of a round fit into an `ngx_int_t`: nobody owes more than a round, and nobody is
owed more than a round by each of the others. -/
structure Fits {n : Nat} (weight : Fin n → Nat) (credit : Fin n → Int) : Prop where
  pos : 0 < Rotation.total weight
  balanced : Rotation.Balanced weight credit
  rounds : n * Rotation.total weight < 2 ^ 63

namespace Fits

variable {n : Nat} {weight : Fin n → Nat} {credit : Fin n → Int}

theorem total_lt (h : Fits weight credit) (j : Fin n) : Rotation.total weight < 2 ^ 63 :=
  Nat.lt_of_le_of_lt (Nat.le_mul_of_pos_left _ j.pos) h.rounds

theorem low (h : Fits weight credit) (j : Fin n) : -2 ^ 63 ≤ credit j + weight j := by
  have howes := h.balanced.owes_less j
  have htotal := h.total_lt j
  omega

theorem high (h : Fits weight credit) (j : Fin n) : credit j + weight j < 2 ^ 63 := by
  have howed := h.balanced.credit_add_weight_le j
  have hrounds := h.rounds
  rw [Fintype.card_fin] at howed
  omega

end Fits

namespace Peers.Follows

variable {n : Nat} {weight : Fin n → Nat} {credit : Fin n → Int} {peers : List Peer}
  {tried : Tried} {now total : Int} {list : List Peer}

/-- The chosen peer pays the weights of all. -/
theorem total_eq (h : Follows weight credit peers) (hfits : Fits weight credit)
    (htried : ∀ j < n, BitArray.test tried j = false) {p : Fin n}
    (hpicked : Picked now tried peers p total list) : total = Rotation.total weight := by
  have hall : ∀ j peer, peers[j]? = some peer → skipped tried now (0 + j) peer = false := by
    intro j peer hpeer
    rw [Nat.zero_add]
    exact h.takesPart htried now hpeer
  have htotal := hfits.total_lt p
  rw [hpicked.total_eq, gained_of_all hall, h.map_effectiveWeight, List.sum_ofFn,
    ← Nat.cast_sum]
  change ngxInt (Rotation.total weight) = _
  exact ngxInt_of_range (by omega) (by omega)

theorem leadsFirst (h : Follows weight credit peers) (hfits : Fits weight credit)
    (htried : ∀ j < n, BitArray.test tried j = false) {p : Nat}
    (hpicked : Picked now tried peers p total list) :
    ∃ hp : p < n, Rotation.LeadsFirst weight credit ⟨p, hp⟩ := by
  obtain ⟨chosen, hchosen, -, hahead⟩ := hpicked.takesPart
  obtain ⟨hp, hsmooth⟩ := h.smooth_of_getElem? hchosen
  -- every peer takes part
  have hall : ∀ j : Fin n, ∃ other : Peer, other.gain.currentWeight = credit j + weight j ∧
      Ahead (chosen.gain, p) (other.gain, j.val) := by
    intro j
    obtain ⟨other, hother, hsmooth⟩ := h.smooth j
    exact ⟨other, (hsmooth.gain (hfits.low j) (hfits.high j)).current,
      hahead j other hother (h.takesPart htried now hother)⟩
  have hcredit : chosen.gain.currentWeight = credit ⟨p, hp⟩ + weight ⟨p, hp⟩ :=
    (hsmooth.gain (hfits.low _) (hfits.high _)).current
  refine ⟨hp, ?_, ?_⟩
  · intro j
    obtain ⟨other, hother, hfirst⟩ := hall j
    unfold Ahead at hfirst
    dsimp only at hfirst
    omega
  · intro j hleads
    obtain ⟨other, hother, hfirst⟩ := hall j
    have hmost := hleads ⟨p, hp⟩
    unfold Ahead at hfirst
    dsimp only at hfirst
    rw [Fin.le_iff_val_le_val]
    dsimp only
    omega

/-- What a choice among all the peers does to their credits. -/
theorem afterChoice (h : Follows weight credit peers) (hfits : Fits weight credit)
    (htried : ∀ j < n, BitArray.test tried j = false) {p : Fin n}
    (hpicked : Picked now tried peers p total list)
    (hleads : Rotation.Leads weight credit p) :
    Follows weight (Rotation.afterTurn weight credit p) list where
  length := by rw [hpicked.length_eq, h.length]
  smooth := by
    intro j
    obtain ⟨peer, hpeer, hsmooth⟩ := h.smooth j
    have hgained := hsmooth.gain (hfits.low j) (hfits.high j)
    rw [hpicked.getElem? j, hpeer, Option.map_some, Upstream.afterChoice, passed,
      h.takesPart htried now hpeer]
    refine ⟨_, rfl, ?_⟩
    unfold Rotation.afterTurn
    by_cases hj : j = p
    · subst hj
      have hpositive := hleads.pos hfits.pos hfits.balanced.sum_eq_zero
      have hhigh := hfits.high j
      have htotal := hfits.total_lt j
      rw [h.total_eq hfits htried hpicked, if_pos rfl, if_pos rfl, if_neg (by simp)]
      exact hgained.chosen now (by omega) (by omega)
    · have hval : j.val ≠ p.val := fun hsame => hj (Fin.ext hsame)
      rw [if_neg hval, if_neg hj, if_neg (by simp), Int.sub_zero]
      exact hgained

/-- Asking for a peer is a turn of the rotation. -/
theorem turn {peers next : Peers} (hpos : 0 < n) (h : Follows weight credit peers.peer)
    (hfits : Fits weight credit) (hsingle : peers.single = true → n = 1) {after : Tried}
    {result : Option Nat}
    (htried : peers.single = false → ∀ j < n, BitArray.test tried j = false)
    (hget : peers.get now tried = (next, after, result)) :
    ∃ p : Fin n, result = some p.val ∧ Rotation.LeadsFirst weight credit p ∧
      Follows weight (Rotation.afterTurn weight credit p) next.peer := by
  cases result with
  | none =>
      obtain ⟨-, -, hexhausted⟩ := Peers.get_eq_none hget
      obtain ⟨peer, hpeer, hsmooth⟩ := h.smooth ⟨0, hpos⟩
      have havailable := hsmooth.available now
      unfold Peers.Exhausted at hexhausted
      split at hexhausted
      next =>
        have hout := hexhausted peer (by rw [List.head?_eq_getElem?]; exact hpeer)
        simp [Peer.full, hsmooth.up, hsmooth.unlimited] at hout
      next hseveral =>
        have hskipped := hexhausted 0 peer hpeer
        rw [skipped, htried (by simpa using hseveral) 0 hpos, havailable] at hskipped
        cases hskipped
  | some p =>
      rcases Peers.get_eq_some hget with ⟨hone, -, rfl, -, rfl⟩ |
        ⟨hseveral, -, total, list, hpicked, rfl⟩
      · obtain rfl := hsingle hone
        have hsame : Rotation.afterTurn weight credit 0 = credit := by
          funext j
          obtain rfl : j = 0 := Subsingleton.elim _ _
          simp [Rotation.afterTurn, Rotation.total]
        refine ⟨0, rfl, ⟨fun j => ?_, fun j _ => Fin.zero_le j⟩, ?_⟩
        · obtain rfl : j = 0 := Subsingleton.elim _ _
          exact Int.le_refl _
        · rw [hsame]
          exact h.modify 0 Peer.Smooth.connect
      · obtain ⟨hp, hleads⟩ := h.leadsFirst hfits (htried hseveral) hpicked
        have hafter := h.afterChoice hfits (htried hseveral) hpicked hleads.leads
        exact ⟨⟨p, hp⟩, rfl, hleads, hafter.modify p Peer.Smooth.connect⟩

end Peers.Follows

/-! ## A worker -/

namespace Worker

/-- The credits after as many turns as there were picks. -/
noncomputable def credits {n : Nat} [NeZero n] (weight : Fin n → Nat) (turns : Nat) : Fin n → Int :=
  (Rotation.advance weight (Rotation.firstLeader weight))^[turns] fun _ => 0

theorem balanced_credits {n : Nat} [NeZero n] {weight : Fin n → Nat}
    (hpos : 0 < Rotation.total weight) (turns : Nat) :
    Rotation.Balanced weight (credits weight turns) :=
  (Rotation.balanced_zero hpos).turns hpos
    (Rotation.turns_picks (fun credit => (Rotation.firstLeader_spec weight credit).leads) turns _)

/-- The picks of the worker are those of the rotation. A request asks once, so that all peers
take part whenever one asks. -/
structure Rotates {n : Nat} [NeZero n] (weight : Fin n → Nat) (worker : Worker) : Prop where
  sound : worker.Sound
  fits : Fits weight (credits weight worker.picks.length)
  follows : Peers.Follows weight (credits weight worker.picks.length) worker.us.peers.peer
  picks : worker.picks.map Pick.peer =
    (Rotation.picks weight (Rotation.firstLeader weight) worker.picks.length fun _ => 0).map Fin.val
  primary : ∀ pick ∈ worker.picks, pick.backup = false
  fresh : ∀ index (request : Request), worker.requests[index]? = some request →
    request.rrp.backup = false ∧
      (request.stage = .connecting → worker.attempts index = [])

section Steps

variable {n : Nat} [NeZero n] {weight : Fin n → Nat} {worker next : Worker}

/-- Another peer is given out, by a turn of the rotation. -/
theorem Rotates.connect (h : worker.Rotates weight) {index : Nat} {now : Int}
    {rrp after : RrPeerData}
    {tries : Nat} {us : Balancer} {result : Option Nat}
    (hrequest : worker.requests[index]? = some ⟨rrp, tries, .connecting⟩)
    (hget : getRoundRobinPeer now worker.us rrp = (us, after, result)) :
    ∃ p : Fin n, result = some p.val ∧ after.backup = false ∧
      p = Rotation.firstLeader weight (credits weight worker.picks.length) ∧
      Peers.Follows weight (credits weight (worker.picks.length + 1)) us.peers.peer := by
  obtain ⟨hprimary, hattempts⟩ := h.fresh index _ hrequest
  have hsound := h.sound.requests index _ hrequest
  rw [hattempts rfl] at hsound
  have hnumber : worker.us.count false = some n := by
    rw [Balancer.count, Balancer.list, if_neg (by simp), Option.map_some, Peers.number,
      h.follows.length]
  have hsingle : worker.us.peers.single = true → n = 1 := by
    intro hsingle
    have hone := (h.sound.formed.single hsingle).1
    rw [hnumber] at hone
    exact Option.some.inj hone
  have htried : worker.us.peers.single = false → ∀ j < n,
      BitArray.test rrp.tried j = false := by
    intro hseveral j hj
    have hbit := hsound.tried hseveral n (hprimary ▸ hnumber) j hj
    simpa using hbit
  obtain ⟨peers, tried, found, hturn⟩ :
      ∃ peers tried found, worker.us.peers.get now rrp.tried = (peers, tried, found) :=
    ⟨_, _, _, rfl⟩
  obtain ⟨p, rfl, hleads, hfollows⟩ :=
    h.follows.turn (NeZero.pos n) h.fits hsingle htried hturn
  have hfirst := hleads.unique (Rotation.firstLeader_spec weight _)
  unfold getRoundRobinPeer at hget
  rw [if_neg (by simp [show rrp.backup = false from hprimary]), hturn] at hget
  cases hget
  refine ⟨p, rfl, hprimary, hfirst, ?_⟩
  have hnext : credits weight (worker.picks.length + 1) =
      Rotation.afterTurn weight (credits weight worker.picks.length) p := by
    rw [hfirst]
    exact Function.iterate_succ_apply' _ _ _
  rw [hnext]
  exact hfollows

/-- Requests other than the one that is replaced stay as they were. -/
theorem Rotates.fresh_set (h : worker.Rotates weight) {us : Balancer} {picks : List Pick}
    {index : Nat} {request : Request} (hprimary : request.rrp.backup = false)
    (hstage : request.stage ≠ .connecting)
    (hpicks : ∀ other, other ≠ index →
      attempts ⟨us, worker.requests.set index request, picks⟩ other = worker.attempts other) :
    ∀ other (found : Request), (worker.requests.set index request)[other]? = some found →
      found.rrp.backup = false ∧ (found.stage = .connecting →
        attempts ⟨us, worker.requests.set index request, picks⟩ other = []) := by
  intro other found hfound
  rw [List.getElem?_set] at hfound
  split at hfound
  next =>
    split at hfound
    · rw [← Option.some.inj hfound]
      exact ⟨hprimary, fun hconnecting => absurd hconnecting hstage⟩
    · cases hfound
  next hother =>
    rw [hpicks other (Ne.symm hother)]
    exact h.fresh other found hfound

theorem Rotates.step {step : WorkerStep} (h : worker.Rotates weight) (hsmooth : step.Smooth)
    (hstep : worker.step step = some next) : next.Rotates weight := by
  have hsound := h.sound.step hstep
  rcases step_cases hstep with ⟨-, rfl⟩ |
    ⟨index, now, rrp, tries, us, after, p, -, hrequest, hget, rfl⟩ |
    ⟨index, now, rrp, tries, us, after, -, hrequest, hget, rfl⟩ |
    ⟨index, rrp, tries, -, hrequest, rfl⟩ |
    ⟨index, now, failed, again, rrp, tries, left, stage, rfl, hrequest, -, hstage, rfl⟩
  · refine ⟨hsound, h.fits, h.follows, h.picks, h.primary, fun index request hrequest => ?_⟩
    rcases Nat.lt_or_ge index worker.requests.length with hlt | hge
    · rw [List.getElem?_append_left hlt] at hrequest
      exact h.fresh index request hrequest
    · rw [List.getElem?_append_right hge, List.getElem?_singleton] at hrequest
      split at hrequest
      next =>
        rw [← Option.some.inj hrequest]
        refine ⟨rfl, fun _ => attempts_of_unknown fun pick hpick => ?_⟩
        exact Nat.lt_of_lt_of_le (h.sound.known pick hpick) hge
      next => cases hrequest
  · obtain ⟨q, hq, hprimary, hfirst, hfollows⟩ := h.connect hrequest hget
    obtain rfl : p = q.val := Option.some.inj hq
    refine ⟨hsound, ⟨h.fits.pos, balanced_credits h.fits.pos _, h.fits.rounds⟩, ?_, ?_,
      fun pick hpick => ?_, ?_⟩
    · simpa using hfollows
    · rw [List.map_append, h.picks, List.length_append, List.length_singleton,
        Rotation.picks_add, List.map_append, hfirst]
      rfl
    · rcases List.mem_append.mp hpick with hold | hnew
      · exact h.primary pick hold
      · rw [List.mem_singleton.mp hnew]
        exact hprimary
    · refine h.fresh_set hprimary (by simp) fun other hother => ?_
      rw [attempts_concat, if_neg (Ne.symm hother), List.append_nil]
  · obtain ⟨q, hq, -⟩ := h.connect hrequest hget
    cases hq
  · obtain ⟨current, peers, hcurrent, hlist⟩ := h.sound.held hrequest
    have hprimary : rrp.backup = false := (h.fresh index _ hrequest).1
    rw [hprimary] at hlist
    obtain rfl : worker.us.peers = peers := Option.some.inj hlist
    refine ⟨hsound, h.fits, ?_, h.picks, h.primary, h.fresh⟩
    dsimp only
    rw [notifyRoundRobinPeer_eq hcurrent (hprimary ▸ hlist), hprimary]
    exact h.follows.modify current Peer.Smooth.live
  · obtain ⟨current, peers, hcurrent, hlist⟩ := h.sound.held hrequest
    have hprimary : rrp.backup = false := (h.fresh index _ hrequest).1
    rw [hprimary] at hlist
    obtain rfl : worker.us.peers = peers := Option.some.inj hlist
    obtain ⟨rfl, rfl⟩ := hsmooth
    obtain rfl : stage = .finished := hstage.resolve_right (by simp)
    refine ⟨hsound, h.fits, ?_, h.picks, h.primary,
      h.fresh_set hprimary (by simp) fun _ _ => rfl⟩
    dsimp only
    rw [freeRoundRobinPeer_eq hcurrent (hprimary ▸ hlist), hprimary]
    unfold Peers.free
    split
    · exact h.follows.modify current Peer.Smooth.disconnect
    · exact h.follows.modify current fun hpeer => hpeer.release now

end Steps

/-! ## Shares -/

theorem smooth_initRoundRobin {servers : List Server} {us : Balancer}
    (hinit : initRoundRobin servers = some us)
    (hplain : ∀ server ∈ servers, server.backup = false → server.Plain)
    {peer : Peer} (hpeer : peer ∈ us.peers.peer) :
    peer.Smooth peer.weight 0 ∧ 0 < peer.weight := by
  rw [@initRoundRobin_list servers us false us.peers hinit rfl] at hpeer
  obtain ⟨server, hserver, hmem⟩ := List.mem_flatMap.mp hpeer
  obtain ⟨sockaddr, -, rfl⟩ := List.mem_map.mp hmem
  obtain ⟨hlisted, hprimary⟩ := List.mem_filter.mp hserver
  have h := hplain server hlisted (by simpa using hprimary)
  exact ⟨⟨rfl, rfl, rfl, h.up, h.unlimited, rfl⟩, h.weight⟩

theorem sum_map_weight (servers : List Server) :
    (servers.map fun server => server.addrs.length * server.weight).sum =
      ((servers.flatMap Server.peers).map Peer.weight).sum := by
  induction servers with
  | nil => rfl
  | cons server rest ih =>
      have hown : (server.peers.map Peer.weight).sum = server.addrs.length * server.weight := by
        have hsame : server.peers.map Peer.weight =
            List.replicate server.addrs.length server.weight := by
          rw [Server.peers, List.map_map]
          exact List.map_const' ..
        rw [hsame, List.sum_replicate, smul_eq_mul]
      rw [List.map_cons, List.sum_cons, ih, List.flatMap_cons, List.map_append, List.sum_append,
        hown]

/-- The weights of the primary peers of an upstream. -/
def weights (us : Balancer) (j : Fin us.peers.peer.length) : Nat := us.peers.peer[j].weight

/-- The sum of the weights of the primary peers, as many times as there are peers, fits into
an `ngx_int_t`. -/
def RoundsFit (us : Balancer) : Prop :=
  us.peers.peer.length * (us.peers.peer.map Peer.weight).sum < 2 ^ 63

instance (us : Balancer) : Decidable (RoundsFit us) :=
  inferInstanceAs (Decidable (_ < _))

theorem initRoundRobin_pos {servers : List Server} {us : Balancer}
    (hinit : initRoundRobin servers = some us) : us.peers.peer.length ≠ 0 := by
  unfold initRoundRobin at hinit
  simp only at hinit
  split at hinit
  · cases hinit
  next hsome =>
    split at hinit <;> cases hinit <;> exact (Balancer.length_flatMap_peers _).trans_ne hsome

theorem sum_weights (us : Balancer) :
    Rotation.total (weights us) = (us.peers.peer.map Peer.weight).sum := by
  rw [← Fin.sum_univ_fun_getElem]
  rfl

theorem totalWeight_eq {servers : List Server} {us : Balancer}
    (hinit : initRoundRobin servers = some us) (hfits : RoundsFit us) :
    us.peers.totalWeight = (us.peers.peer.map Peer.weight).sum := by
  have hsmall : (us.peers.peer.map Peer.weight).sum < 2 ^ 64 := by
    have hone := Nat.le_mul_of_pos_left (us.peers.peer.map Peer.weight).sum
      (Nat.pos_of_ne_zero (initRoundRobin_pos hinit))
    unfold RoundsFit at hfits
    omega
  have hwrapped : us.peers.totalWeight = (us.peers.peer.map Peer.weight).sum % 2 ^ 64 := by
    unfold initRoundRobin at hinit
    simp only at hinit
    split at hinit
    · cases hinit
    · split at hinit <;> cases hinit <;> exact congrArg (· % 2 ^ 64) (sum_map_weight _)
  rw [hwrapped, Nat.mod_eq_of_lt hsmall]

theorem total_weights {servers : List Server} {us : Balancer}
    (hinit : initRoundRobin servers = some us) (hfits : RoundsFit us) :
    Rotation.total (weights us) = us.peers.totalWeight := by
  rw [totalWeight_eq hinit hfits, sum_weights]

theorem total_weights_pos {servers : List Server} {us : Balancer}
    (hinit : initRoundRobin servers = some us)
    (hplain : ∀ server ∈ servers, server.backup = false → server.Plain) :
    0 < Rotation.total (weights us) := by
  have hpos := Nat.pos_of_ne_zero (initRoundRobin_pos hinit)
  refine Finset.sum_pos (fun j _ => ?_) ⟨⟨0, hpos⟩, Finset.mem_univ _⟩
  exact (smooth_initRoundRobin hinit hplain (List.getElem_mem _)).2

theorem rotates_start {servers : List Server} {us : Balancer} [NeZero us.peers.peer.length]
    (hinit : initRoundRobin servers = some us)
    (hplain : ∀ server ∈ servers, server.backup = false → server.Plain)
    (hfits : RoundsFit us) : Rotates (weights us) { us } where
  sound := sound_start (Balancer.formed_initRoundRobin hinit)
  fits := by
    have hpos := total_weights_pos hinit hplain
    exact ⟨hpos, balanced_credits hpos 0, by rw [sum_weights]; exact hfits⟩
  follows := by
    refine ⟨rfl, fun j => ⟨us.peers.peer[j], List.getElem?_eq_getElem j.isLt, ?_⟩⟩
    exact (smooth_initRoundRobin hinit hplain (List.getElem_mem _)).1
  picks := rfl
  primary := by simp
  fresh := by simp

theorem Rotates.run {n : Nat} [NeZero n] {weight : Fin n → Nat} {worker final : Worker}
    {steps : List WorkerStep} (h : worker.Rotates weight)
    (hsmooth : ∀ step ∈ steps, step.Smooth) (hrun : worker.run steps = some final) :
    final.Rotates weight :=
  runSteps_invariant Worker.step WorkerStep.Smooth (Rotates weight)
    (fun _ _ _ hlabel hrotates hstep => Rotates.step hrotates hlabel hstep) hsmooth h hrun

/-- How many of the requests were given a primary peer. -/
def share (picks : List Pick) (j : Nat) : Nat :=
  picks.countP fun pick => (pick.backup, pick.peer) = (false, j)

/-- A stretch of the picks is one of the rotation. -/
theorem Rotates.window {n : Nat} [NeZero n] {weight : Fin n → Nat} {worker : Worker}
    (h : worker.Rotates weight) {window : List Pick} (hwindow : window <:+: worker.picks) :
    ∃ members, members.length = window.length ∧ (∀ j : Fin n, share window j = members.count j) ∧
      members <:+: Rotation.picks weight (Rotation.firstLeader weight) worker.picks.length
        fun _ => 0 := by
  have hprimary : ∀ pick ∈ window, pick.backup = false := fun pick hpick =>
    h.primary pick (hwindow.subset hpick)
  obtain ⟨before, after, hpicks⟩ := hwindow
  have hmap := h.picks
  rw [← hpicks, List.map_append, List.map_append] at hmap
  obtain ⟨front, last, hfront, hfirst, -⟩ := List.map_eq_append_iff.mp hmap.symm
  obtain ⟨first, members, hmembers, -, hsame⟩ := List.map_eq_append_iff.mp hfirst
  refine ⟨members, by simpa using congrArg List.length hsame, fun j => ?_, first, last, ?_⟩
  · have hcount : share window j = (window.map Pick.peer).count j.val := by
      rw [share, List.count, List.countP_map]
      refine List.countP_congr fun pick hpick => ?_
      simp [hprimary pick hpick]
    rw [hcount, ← hsame, List.count_map_of_injective _ _ Fin.val_injective]
  · rw [← hmembers, ← hfront, hpicks]

section Shares

variable {servers : List Server} {us : Balancer} {steps : List WorkerStep} {final : Worker}
  {j : Nat} {peer : Peer}

theorem Rotates.share_of_round (hinit : initRoundRobin servers = some us)
    (hplain : ∀ server ∈ servers, server.backup = false → server.Plain) (hfits : RoundsFit us)
    [NeZero us.peers.peer.length] (h : final.Rotates (weights us)) {window : List Pick}
    (hwindow : window <:+: final.picks) (hround : window.length = us.peers.totalWeight)
    (hpeer : us.peers.peer[j]? = some peer) : share window j = peer.weight := by
  obtain ⟨hj, hfound⟩ := List.getElem?_eq_some_iff.mp hpeer
  obtain ⟨members, hlength, hshare, hmembers⟩ := h.window hwindow
  have hcount := Rotation.count_of_window
    (fun credit => (Rotation.firstLeader_spec (weights us) credit).leads)
    (total_weights_pos hinit hplain) hmembers
    (by rw [hlength, hround, total_weights hinit hfits]) ⟨j, hj⟩
  rw [hshare ⟨j, hj⟩, hcount, weights]
  exact congrArg Peer.weight hfound

/-- While nothing fails, every stretch of as many picks as the weights add up to gives each
primary peer as many requests as its weight says, however the requests overlap. -/
theorem window_shares (hinit : initRoundRobin servers = some us)
    (hplain : ∀ server ∈ servers, server.backup = false → server.Plain) (hfits : RoundsFit us)
    (hsmooth : ∀ step ∈ steps, step.Smooth) (hrun : run { us } steps = some final)
    {window : List Pick} (hwindow : window <:+: final.picks)
    (hround : window.length = us.peers.totalWeight) (hpeer : us.peers.peer[j]? = some peer) :
    share window j = peer.weight := by
  have : NeZero us.peers.peer.length := ⟨initRoundRobin_pos hinit⟩
  have hrotates := (rotates_start hinit hplain hfits).run hsmooth hrun
  exact hrotates.share_of_round hinit hplain hfits hwindow hround hpeer

/-- Two servers, one of which takes twice as many requests. -/
def weightedServers : List Server :=
  [{ addrs := [⟨0x7f000001, 9010⟩], weight := 2 }, { addrs := [⟨0x7f000001, 9011⟩] }]

theorem weightedServers_plain :
    ∀ server ∈ weightedServers, server.backup = false → server.Plain :=
  List.forall_mem_cons.mpr ⟨fun _ => ⟨by decide, rfl, rfl⟩,
    List.forall_mem_singleton.mpr fun _ => ⟨by decide, rfl, rfl⟩⟩

/-- Five requests, some of which wait while others are served. -/
def weightedSteps : List WorkerStep :=
  [.arrive, .arrive, .connect 1 0, .connect 0 0, .release 1 1 false false, .arrive, .connect 2 1,
    .arrive, .arrive, .connect 4 2, .release 0 2 false false, .connect 3 3]

theorem window_shares_weighted :
    ∃ us final, initRoundRobin weightedServers = some us ∧
      run { us } weightedSteps = some final ∧
      final.picks.map Pick.peer = [0, 1, 0, 0, 1] ∧ share (final.picks.drop 2) 0 = 2 :=
  ⟨_, _, rfl, rfl, rfl,
    @window_shares weightedServers _ weightedSteps _ 0 _ rfl weightedServers_plain (by decide)
      (by decide) rfl _ (List.drop_suffix 2 _).isInfix rfl rfl⟩

/-- At no time has a peer had a whole request more than its share. -/
theorem share_lt (hinit : initRoundRobin servers = some us)
    (hplain : ∀ server ∈ servers, server.backup = false → server.Plain) (hfits : RoundsFit us)
    (hsmooth : ∀ step ∈ steps, step.Smooth) (hrun : run { us } steps = some final)
    (hpeer : us.peers.peer[j]? = some peer) :
    us.peers.totalWeight * share final.picks j <
      final.picks.length * peer.weight + us.peers.totalWeight := by
  obtain ⟨hj, hfound⟩ := List.getElem?_eq_some_iff.mp hpeer
  have : NeZero us.peers.peer.length := ⟨initRoundRobin_pos hinit⟩
  have hrotates := (rotates_start hinit hplain hfits).run hsmooth hrun
  obtain ⟨members, hlength, hshare, hmembers⟩ := hrotates.window (List.infix_refl final.picks)
  -- the whole list of picks
  have hall := hmembers.eq_of_length (by rw [hlength, Rotation.length_picks])
  have hturns := Rotation.turns_picks
    (fun credit => (Rotation.firstLeader_spec (weights us) credit).leads) final.picks.length
    fun _ => 0
  have hbound := Rotation.count_lt_of_turns (total_weights_pos hinit hplain) hturns ⟨j, hj⟩
  rw [← hall, ← hshare ⟨j, hj⟩, hlength, total_weights hinit hfits, weights] at hbound
  rw [← hfound]
  exact hbound

theorem share_lt_weighted :
    ∃ us final, initRoundRobin weightedServers = some us ∧
      run { us } weightedSteps = some final ∧
      3 * share final.picks 1 < final.picks.length * 1 + 3 :=
  ⟨_, _, rfl, rfl,
    @share_lt weightedServers _ weightedSteps _ 1 _ rfl weightedServers_plain (by decide)
      (by decide) rfl rfl⟩

/-- The workers share no peers, so that each has a rotation of its own. However the requests
are spread over them, a peer has had its weight of requests as soon as there were more than
one round less a request for each worker. -/
theorem workers_reach_all (hinit : initRoundRobin servers = some us)
    (hplain : ∀ server ∈ servers, server.backup = false → server.Plain) (hfits : RoundsFit us)
    {workers : List Worker}
    (hworkers : ∀ worker ∈ workers, ∃ steps : List WorkerStep,
      (∀ step ∈ steps, step.Smooth) ∧ run { us } steps = some worker)
    (hmany : workers.length * (us.peers.totalWeight - 1) <
      (workers.map fun worker => worker.picks.length).sum)
    (hpeer : us.peers.peer[j]? = some peer) :
    peer.weight ≤ (workers.map fun worker => share worker.picks j).sum := by
  -- one of the workers has gone through a round
  obtain ⟨worker, hworker, hlength⟩ : ∃ worker ∈ workers,
      us.peers.totalWeight - 1 < worker.picks.length := by
    apply List.exists_lt_of_sum_lt
    rw [List.map_const', List.sum_replicate, smul_eq_mul]
    exact hmany
  obtain ⟨steps, hsmooth, hrun⟩ := hworkers worker hworker
  have : NeZero us.peers.peer.length := ⟨initRoundRobin_pos hinit⟩
  have hrotates := (rotates_start hinit hplain hfits).run hsmooth hrun
  have hround : (worker.picks.take us.peers.totalWeight).length = us.peers.totalWeight := by
    rw [List.length_take]
    omega
  have hshare :=
    hrotates.share_of_round hinit hplain hfits (List.take_prefix _ _).isInfix hround hpeer
  calc peer.weight = share (worker.picks.take us.peers.totalWeight) j := hshare.symm
    _ ≤ share worker.picks j := (List.take_sublist _ _).countP_le
    _ ≤ (workers.map fun worker => share worker.picks j).sum :=
        List.le_sum_of_mem (List.mem_map_of_mem hworker)

/-- Of two workers one has all the requests. -/
theorem workers_reach_all_weighted :
    ∃ us final, initRoundRobin weightedServers = some us ∧
      run { us } weightedSteps = some final ∧
      2 ≤ ([final, { us }].map fun worker => share worker.picks 0).sum :=
  ⟨_, _, rfl, rfl,
    @workers_reach_all weightedServers _ 0 _ rfl weightedServers_plain (by decide) [_, _]
      (List.forall_mem_cons.mpr ⟨⟨weightedSteps, by decide, rfl⟩,
        List.forall_mem_singleton.mpr ⟨[], by decide, rfl⟩⟩) (by decide) rfl⟩

end Shares

end Worker

end NginxInterface.Upstream
