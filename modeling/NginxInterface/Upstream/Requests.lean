import Mathlib.Data.List.Nodup
import NginxInterface.Foundation.Runs
import NginxInterface.Upstream.Choice

/-! # Requests of a worker

A worker serves many requests at a time. Each asks the balancer for a peer, connects to
it, and lets it go when it is answered or has failed; after a failure it may ask again.
The steps of different requests interleave freely.
-/

namespace NginxInterface.Upstream

open Foundation

inductive Stage where
  /-- About to ask for a peer. -/
  | connecting
  /-- Holding the peer `current`. -/
  | connected
  | finished
  deriving DecidableEq

/-- The part of a request that the balancer sees: `u->peer` and its data. -/
structure Request where
  rrp : RrPeerData
  tries : Nat
  stage : Stage

/-- A peer was given to a request. -/
structure Pick where
  request : Nat
  backup : Bool
  peer : Nat
  deriving DecidableEq

/-- The peers of an upstream in one worker, the requests in the order in which they came, and
the peers given so far. -/
structure Worker where
  us : Balancer
  requests : List Request := []
  picks : List Pick := []

inductive WorkerStep where
  | arrive
  /-- `ngx_http_upstream_connect` asks for a peer. -/
  | connect (index : Nat) (now : Int)
  /-- The stream module reports that the connection is established. -/
  | notify (index : Nat)
  /-- The request is answered, or `ngx_http_upstream_next` is called. `again` says that it may
  go to another peer: the failure is of a kind that `proxy_next_upstream` names. -/
  | release (index : Nat) (now : Int) (failed again : Bool)

namespace Worker

def step (worker : Worker) : WorkerStep → Option Worker
  | .arrive =>
      some { worker with
        requests := worker.requests ++
          [⟨initRoundRobinPeer worker.us, worker.us.tries, .connecting⟩] }
  | .connect index now =>
      match worker.requests[index]? with
      | some ⟨rrp, tries, .connecting⟩ =>
          match getRoundRobinPeer now worker.us rrp with
          | (us, rrp, some p) =>
              some { us
                     requests := worker.requests.set index ⟨rrp, tries, .connected⟩
                     picks := worker.picks ++ [⟨index, rrp.backup, p⟩] }
          -- "no live upstreams", for which the default is to give up
          | (us, rrp, none) =>
              some { worker with
                us
                requests := worker.requests.set index ⟨rrp, tries, .finished⟩ }
      | _ => none
  | .notify index =>
      match worker.requests[index]? with
      | some ⟨rrp, _, .connected⟩ => some { worker with us := notifyRoundRobinPeer worker.us rrp }
      | _ => none
  | .release index now failed again =>
      match worker.requests[index]? with
      | some ⟨rrp, tries, .connected⟩ =>
          let (us, left) := freeRoundRobinPeer now failed tries worker.us rrp
          let stage := if again ∧ left ≠ 0 then Stage.connecting else .finished
          some { worker with us, requests := worker.requests.set index ⟨rrp, left, stage⟩ }
      | _ => none

def run (worker : Worker) (steps : List WorkerStep) : Option Worker := runSteps step worker steps

/-- The peers that a request was given, in order. -/
def attempts (worker : Worker) (index : Nat) : List (Bool × Nat) :=
  (worker.picks.filter fun pick => pick.request = index).map fun pick => (pick.backup, pick.peer)

/-- Everything an enabled step can do. -/
theorem step_cases {worker next : Worker} {step : WorkerStep}
    (h : worker.step step = some next) :
    (step = .arrive ∧ next = { worker with
      requests := worker.requests ++
        [⟨initRoundRobinPeer worker.us, worker.us.tries, .connecting⟩] }) ∨
    (∃ index now rrp tries us after p, step = .connect index now ∧
      worker.requests[index]? = some ⟨rrp, tries, .connecting⟩ ∧
      getRoundRobinPeer now worker.us rrp = (us, after, some p) ∧
      next = { us
               requests := worker.requests.set index ⟨after, tries, .connected⟩
               picks := worker.picks ++ [⟨index, after.backup, p⟩] }) ∨
    (∃ index now rrp tries us after, step = .connect index now ∧
      worker.requests[index]? = some ⟨rrp, tries, .connecting⟩ ∧
      getRoundRobinPeer now worker.us rrp = (us, after, none) ∧
      next = { worker with
        us, requests := worker.requests.set index ⟨after, tries, .finished⟩ }) ∨
    (∃ index rrp tries, step = .notify index ∧
      worker.requests[index]? = some ⟨rrp, tries, .connected⟩ ∧
      next = { worker with us := notifyRoundRobinPeer worker.us rrp }) ∨
    (∃ index now failed again rrp tries left stage, step = .release index now failed again ∧
      worker.requests[index]? = some ⟨rrp, tries, .connected⟩ ∧
      left = (freeRoundRobinPeer now failed tries worker.us rrp).2 ∧
      (stage = .finished ∨ stage = .connecting ∧ again = true ∧ left ≠ 0) ∧
      next = { worker with
        us := (freeRoundRobinPeer now failed tries worker.us rrp).1
        requests := worker.requests.set index ⟨rrp, left, stage⟩ }) := by
  cases step with
  | arrive => exact Or.inl ⟨rfl, (Option.some.inj h).symm⟩
  | connect index now =>
      simp only [Worker.step] at h
      split at h
      next rrp tries hrequest =>
        split at h
        next us after p hget =>
          exact Or.inr (Or.inl ⟨index, now, rrp, tries, us, after, p, rfl, hrequest, hget,
            (Option.some.inj h).symm⟩)
        next us after hget =>
          exact Or.inr (Or.inr (Or.inl ⟨index, now, rrp, tries, us, after, rfl, hrequest, hget,
            (Option.some.inj h).symm⟩))
      next => cases h
  | notify index =>
      simp only [Worker.step] at h
      split at h
      next rrp tries hrequest =>
        exact Or.inr (Or.inr (Or.inr (Or.inl ⟨index, rrp, tries, rfl, hrequest,
          (Option.some.inj h).symm⟩)))
      next => cases h
  | release index now failed again =>
      simp only [Worker.step] at h
      split at h
      next rrp tries hrequest =>
        refine Or.inr (Or.inr (Or.inr (Or.inr ⟨index, now, failed, again, rrp, tries, _, _, rfl,
          hrequest, rfl, ?_, (Option.some.inj h).symm⟩)))
        split
        next hagain => exact Or.inr ⟨rfl, hagain⟩
        next => exact Or.inl rfl
      next => cases h

end Worker

/-! ## The peers that a request is given -/

/-- What holds of a request that has been given the peers `attempts` of lists with `count`
peers: none of them twice, the primary ones first, and the bits of `tried` say which of the
list in use. The array has a word for every peer. -/
structure Request.Sound (single : Bool) (count : Bool → Option Nat) (attempts : List (Bool × Nat))
    (request : Request) : Prop where
  nodup : attempts.Nodup
  primariesFirst : attempts.Pairwise fun earlier later => earlier.1 = true → later.1 = true
  backup : ∀ attempt ∈ attempts, attempt.1 = true → request.rrp.backup = true
  stored : ∀ attempt ∈ attempts, ∃ number, count attempt.1 = some number ∧ attempt.2 < number
  listed : ∃ number, count request.rrp.backup = some number
  room : ∀ backup number, count backup = some number →
    BitArray.size 64 number ≤ request.rrp.tried.length
  tried : single = false → ∀ number, count request.rrp.backup = some number →
    ∀ j < number, BitArray.test request.rrp.tried j = true ↔ (request.rrp.backup, j) ∈ attempts
  single : single = true → request.stage = .connecting → attempts = []
  current : request.stage = .connected →
    ∃ j, request.rrp.current = some j ∧ (request.rrp.backup, j) ∈ attempts

namespace Balancer

/-- An upstream is marked `single` only if it has one peer and no backup. -/
structure Formed (us : Balancer) : Prop where
  single : us.peers.single = true → us.count false = some 1 ∧ us.count true = none
  backups : ∀ peers, us.next = some peers → peers.single = false

theorem Formed.alike {us next : Balancer} (h : us.Formed) (halike : us.Alike next) :
    next.Formed where
  single := by
    intro hsingle
    rw [halike.count]
    exact h.single (halike.single ▸ hsingle)
  backups := by
    intro peers' hpeers'
    obtain ⟨peers, hpeers, hsame⟩ := halike.backups peers' hpeers'
    rw [hsame]
    exact h.backups peers hpeers

theorem Formed.list_single {us : Balancer} (h : us.Formed) {backup : Bool} {peers : Peers}
    (hlist : us.list backup = some peers) : peers.single = us.peers.single := by
  cases backup with
  | false => exact Option.some.inj hlist ▸ rfl
  | true =>
      have hnext : us.next = some peers := hlist
      rw [h.backups peers hnext]
      cases hsingle : us.peers.single with
      | false => rfl
      | true =>
          have hnone := (h.single hsingle).2
          rw [count, list, if_pos rfl, hnext] at hnone
          cases hnone

theorem le_longest (us : Balancer) {backup : Bool} {number : Nat}
    (h : us.count backup = some number) : number ≤ us.longest := by
  unfold longest
  cases backup with
  | false =>
      rw [← Option.some.inj h]
      split
      · exact Nat.le_max_left _ _
      · exact Nat.le_refl _
  | true =>
      obtain ⟨next, hnext, rfl⟩ := Option.map_eq_some_iff.mp h
      rw [list, if_pos rfl] at hnext
      rw [hnext]
      exact Nat.le_max_right _ _

theorem length_flatMap_peers (servers : List Server) :
    (servers.flatMap Server.peers).length = naddrs servers := by
  rw [List.length_flatMap, naddrs]
  simp [Server.peers]

theorem formed_initRoundRobin {servers : List Server} {us : Balancer}
    (h : initRoundRobin servers = some us) : us.Formed := by
  unfold initRoundRobin at h
  simp only at h
  split at h
  · cases h
  · split at h
    · cases h
      refine ⟨fun hsingle => ⟨?_, rfl⟩, fun peers hpeers => by cases hpeers⟩
      have hone : naddrs (servers.filter fun server => !server.backup) = 1 := by
        simpa [Peers.ofServers] using hsingle
      rw [count, list, if_neg (by simp), Option.map_some, Peers.number, Peers.ofServers,
        length_flatMap_peers, hone]
    · cases h
      refine ⟨fun hsingle => (Bool.noConfusion hsingle), fun peers hpeers => ?_⟩
      rw [← Option.some.inj hpeers]

end Balancer

theorem sound_initRoundRobinPeer (us : Balancer) (tries : Nat) :
    Request.Sound us.peers.single us.count [] ⟨initRoundRobinPeer us, tries, .connecting⟩ where
  nodup := List.nodup_nil
  primariesFirst := List.Pairwise.nil
  backup := by simp
  stored := by simp
  listed := ⟨us.peers.number, rfl⟩
  room := by
    intro backup number hcount
    refine Nat.le_trans (BitArray.size_mono (us.le_longest hcount)) ?_
    simp only [initRoundRobinPeer, List.length_replicate]
    -- one word is enough for 64 peers
    split
    next hsmall =>
      rw [BitArray.size, ← Nat.lt_succ_iff, Nat.div_lt_iff_lt_mul (by decide)]
      omega
    next => exact Nat.le_refl _
  tried := by
    intro _ number _ j _
    simp [initRoundRobinPeer, BitArray.test_replicate_zero]
  single := fun _ _ => rfl
  current := by simp

namespace Request.Sound

section Calls

variable {now : Int} {us next : Balancer} {rrp after : RrPeerData} {tries : Nat}
  {attempts : List (Bool × Nat)}

/-- No backup server was tried before the request went over to them. -/
theorem not_mem_backup {single : Bool} {count : Bool → Option Nat} {request : Request}
    (h : request.Sound single count attempts) (hprimary : request.rrp.backup = false) (j : Nat) :
    (true, j) ∉ attempts := by
  intro hmem
  have hbackup := h.backup _ hmem rfl
  rw [hprimary] at hbackup
  cases hbackup

/-- The peer that a request is given was not given to it before. -/
theorem pick_fresh {peers peers' : Peers} {tried : Tried} {p : Nat} (hformed : us.Formed)
    (h : Sound us.peers.single us.count attempts ⟨rrp, tries, .connecting⟩)
    (hlist : us.list after.backup = some peers)
    (hget : peers.get now tried = (peers', after.tried, some p))
    (horigin : after.backup = rrp.backup ∧ tried = rrp.tried ∨
      rrp.backup = false ∧ after.backup = true ∧
        tried = BitArray.clear rrp.tried peers.number ∧ us.peers.Exhausted now rrp.tried) :
    p < peers.number ∧ (after.backup, p) ∉ attempts := by
  rcases Peers.get_eq_some hget with ⟨hsingle, -, rfl, ⟨peer, hpeer, -⟩, -⟩ |
    ⟨hseveral, -, total, list, hpicked, -⟩
  · rw [hformed.list_single hlist] at hsingle
    have hnone : attempts = [] := h.single hsingle rfl
    refine ⟨?_, by simp [hnone]⟩
    rw [List.head?_eq_getElem?] at hpeer
    exact (List.getElem?_eq_some_iff.mp hpeer).1
  · obtain ⟨peer, hpeer, htakes, -⟩ := hpicked.takesPart
    have hbound : p < peers.number := (List.getElem?_eq_some_iff.mp hpeer).1
    rw [hformed.list_single hlist] at hseveral
    refine ⟨hbound, ?_⟩
    rcases horigin with ⟨hsame, rfl⟩ | ⟨hprimary, hbackup, -, -⟩
    · have hcount : us.count rrp.backup = some peers.number := by
        rw [← hsame, Balancer.count, hlist, Option.map_some]
      have htried := h.tried hseveral peers.number hcount p hbound
      rw [hsame, ← htried]
      rw [skipped, Bool.or_eq_false_iff] at htakes
      simp [htakes.1]
    · rw [hbackup]
      exact h.not_mem_backup hprimary p

theorem pick {p : Nat} (hformed : us.Formed)
    (h : Sound us.peers.single us.count attempts ⟨rrp, tries, .connecting⟩)
    (hget : getRoundRobinPeer now us rrp = (next, after, some p)) :
    Sound us.peers.single us.count (attempts ++ [(after.backup, p)])
      ⟨after, tries, .connected⟩ := by
  obtain ⟨peers, peers', tried, hlist, hpick, -, hcurrent, horigin⟩ :=
    getRoundRobinPeer_eq_some hget
  obtain ⟨hbound, hfresh⟩ := pick_fresh hformed h hlist hpick horigin
  have hcount : us.count after.backup = some peers.number := by
    rw [Balancer.count, hlist, Option.map_some]
  -- the array that the peer is looked up in
  have hlength : tried.length = rrp.tried.length := by
    rcases horigin with ⟨-, rfl⟩ | ⟨-, -, rfl, -⟩
    · rfl
    · exact BitArray.length_clear ..
  have hbackup : rrp.backup = true → after.backup = true := by
    intro hrrp
    rcases horigin with ⟨hsame, -⟩ | ⟨hprimary, -⟩
    · rw [hsame, hrrp]
    · rw [hprimary] at hrrp
      cases hrrp
  have hbefore : us.peers.single = false → ∀ j < peers.number,
      BitArray.test tried j = true ↔ (after.backup, j) ∈ attempts := by
    intro hseveral j hj
    rcases horigin with ⟨hsame, rfl⟩ | ⟨hprimary, hafter, rfl, -⟩
    · rw [hsame]
      exact h.tried hseveral peers.number (hsame ▸ hcount) j hj
    · rw [BitArray.test_clear (by decide) _ hj, hafter]
      simp [h.not_mem_backup hprimary j]
  constructor
  case nodup =>
    exact List.Nodup.append h.nodup (List.nodup_singleton _) (List.disjoint_singleton.mpr hfresh)
  case primariesFirst =>
    refine List.pairwise_append.mpr ⟨h.primariesFirst, by simp, ?_⟩
    intro earlier hearlier later hlater hbackups
    rw [List.mem_singleton.mp hlater]
    exact hbackup (h.backup earlier hearlier hbackups)
  case backup =>
    intro attempt hattempt htrue
    rcases List.mem_append.mp hattempt with hold | hnew
    · exact hbackup (h.backup attempt hold htrue)
    · rw [List.mem_singleton.mp hnew] at htrue
      exact htrue
  case stored =>
    intro attempt hattempt
    rcases List.mem_append.mp hattempt with hold | hnew
    · exact h.stored attempt hold
    · rw [List.mem_singleton.mp hnew]
      exact ⟨peers.number, hcount, hbound⟩
  case listed => exact ⟨peers.number, hcount⟩
  case room =>
    intro backup number hnumber
    have hroom := h.room backup number hnumber
    rcases Peers.get_eq_some hpick with ⟨-, hsame, -⟩ | ⟨-, hset, -⟩
    · rw [hsame, hlength]
      exact hroom
    · rw [hset, BitArray.length_set, hlength]
      exact hroom
  case tried =>
    intro hseveral number hnumber j hj
    rw [hcount, Option.some.injEq] at hnumber
    subst hnumber
    rcases Peers.get_eq_some hpick with ⟨hsingle, -⟩ | ⟨-, hset, -⟩
    · rw [hformed.list_single hlist, hseveral] at hsingle
      cases hsingle
    · have hword : p / 64 < tried.length := by
        rw [hlength]
        exact Nat.lt_of_lt_of_le (BitArray.div_lt_size (by decide) hbound)
          (h.room after.backup peers.number hcount)
      rw [hset, BitArray.test_set (by decide) hword, Bool.or_eq_true, hbefore hseveral j hj]
      simp [or_comm]
  case single => exact fun _ hstage => by cases hstage
  case current => exact fun _ => ⟨p, hcurrent, by simp⟩

theorem busy (h : Sound us.peers.single us.count attempts ⟨rrp, tries, .connecting⟩)
    (hget : getRoundRobinPeer now us rrp = (next, after, none)) :
    Sound us.peers.single us.count attempts ⟨after, tries, .finished⟩ := by
  rcases (getRoundRobinPeer_eq_none hget).2 with ⟨rfl, -, -⟩ |
    ⟨hprimary, -, peers, hpeers, rfl, -⟩
  · exact { h with
      single := fun _ hstage => by cases hstage
      current := fun hstage => by cases hstage }
  · have hcount : us.count true = some peers.number := by
      rw [Balancer.count, Balancer.list, if_pos rfl, hpeers, Option.map_some]
    exact { h with
      backup := fun _ _ _ => rfl
      listed := ⟨peers.number, hcount⟩
      room := fun backup number hnumber => by
        rw [BitArray.length_clear]
        exact h.room backup number hnumber
      tried := fun _ number hnumber j hj => by
        rw [hcount, Option.some.injEq] at hnumber
        subst hnumber
        rw [BitArray.test_clear (by decide) _ hj]
        simp [h.not_mem_backup hprimary j]
      single := fun _ hstage => by cases hstage
      current := fun hstage => by cases hstage }

/-- With a single peer nothing is left of the tries, so that the request does not ask
again. -/
theorem release {failed again : Bool} {left : Nat} {stage : Stage} (hformed : us.Formed)
    (h : Sound us.peers.single us.count attempts ⟨rrp, tries, .connected⟩)
    (hleft : left = (freeRoundRobinPeer now failed tries us rrp).2)
    (hstage : stage = .finished ∨ stage = .connecting ∧ again = true ∧ left ≠ 0) :
    Sound us.peers.single us.count attempts ⟨rrp, left, stage⟩ :=
  { h with
    single := by
      intro hsingle hconnecting
      obtain ⟨j, hcurrent, -⟩ := h.current rfl
      obtain ⟨number, hnumber⟩ := h.listed
      obtain ⟨peers, hlist, -⟩ := Option.map_eq_some_iff.mp hnumber
      have hnone : left = 0 := by
        rw [hleft, freeRoundRobinPeer_eq hcurrent hlist, Peers.free,
          if_pos ((hformed.list_single hlist).trans hsingle)]
      rcases hstage with hfinished | ⟨-, -, hsome⟩
      · exact absurd (hfinished.symm.trans hconnecting) (by decide)
      · exact absurd hnone hsome
    current := by
      intro hconnected
      rcases hstage with hfinished | ⟨hconnecting, -⟩
      · exact absurd (hfinished.symm.trans hconnected) (by decide)
      · exact absurd (hconnecting.symm.trans hconnected) (by decide) }

end Calls

end Request.Sound

namespace Worker

structure Sound (worker : Worker) : Prop where
  formed : worker.us.Formed
  requests : ∀ index (request : Request), worker.requests[index]? = some request →
    request.Sound worker.us.peers.single worker.us.count (worker.attempts index)
  known : ∀ pick ∈ worker.picks, pick.request < worker.requests.length

theorem attempts_concat (worker : Worker) (us : Balancer) (requests : List Request) (pick : Pick)
    (index : Nat) :
    attempts ⟨us, requests, worker.picks ++ [pick]⟩ index =
      worker.attempts index ++
        if pick.request = index then [(pick.backup, pick.peer)] else [] := by
  unfold attempts
  rw [List.filter_append, List.map_append]
  congr 1
  by_cases hsame : pick.request = index <;> simp [hsame]

theorem attempts_of_unknown {worker : Worker} {index : Nat}
    (hknown : ∀ pick ∈ worker.picks, pick.request < index) : worker.attempts index = [] := by
  unfold attempts
  rw [List.map_eq_nil_iff, List.filter_eq_nil_iff]
  intro pick hpick
  simpa using Nat.ne_of_lt (hknown pick hpick)

theorem sound_start {us : Balancer} (h : us.Formed) : Sound { us } where
  formed := h
  requests := by simp
  known := by simp

/-- Another request than the one that is replaced is as sound as it was. -/
theorem Sound.set {worker : Worker} (h : worker.Sound) {us : Balancer}
    (halike : worker.us.Alike us) {index : Nat} {request : Request} {picks : List Pick}
    (hpicks : ∀ other, other ≠ index →
      attempts ⟨us, worker.requests.set index request, picks⟩ other = worker.attempts other)
    (hrequest : request.Sound worker.us.peers.single worker.us.count
      (attempts ⟨us, worker.requests.set index request, picks⟩ index))
    (hknown : ∀ pick ∈ picks, pick.request < worker.requests.length) :
    Sound ⟨us, worker.requests.set index request, picks⟩ where
  formed := h.formed.alike halike
  requests := by
    intro other found hfound
    rw [halike.single, halike.count]
    rw [List.getElem?_set] at hfound
    split at hfound
    next hsame =>
      split at hfound
      · rw [← hsame, ← Option.some.inj hfound]
        exact hrequest
      · cases hfound
    next hother =>
      rw [hpicks other (Ne.symm hother)]
      exact h.requests other found hfound
  known := by simpa using hknown

theorem Sound.step {worker next : Worker} {step : WorkerStep} (h : worker.Sound)
    (hstep : worker.step step = some next) : next.Sound := by
  rcases step_cases hstep with ⟨-, rfl⟩ |
    ⟨index, now, rrp, tries, us, after, p, -, hrequest, hget, rfl⟩ |
    ⟨index, now, rrp, tries, us, after, -, hrequest, hget, rfl⟩ |
    ⟨index, rrp, tries, -, hrequest, rfl⟩ |
    ⟨index, now, failed, again, rrp, tries, left, stage, -, hrequest, hleft, hstage, rfl⟩
  · refine ⟨h.formed, fun index request hrequest => ?_, fun pick hpick => ?_⟩
    · rcases Nat.lt_trichotomy index worker.requests.length with hlt | rfl | hgt
      · rw [List.getElem?_append_left hlt] at hrequest
        exact h.requests index request hrequest
      · rw [List.getElem?_concat_length, Option.some.injEq] at hrequest
        have hnone : worker.attempts worker.requests.length = [] := attempts_of_unknown h.known
        rw [← hrequest]
        exact hnone ▸ sound_initRoundRobinPeer worker.us worker.us.tries
      · rw [List.getElem?_eq_none (by simp; omega)] at hrequest
        cases hrequest
    · rw [List.length_append]
      exact Nat.lt_add_right _ (h.known pick hpick)
  · have hlength := (List.getElem?_eq_some_iff.mp hrequest).1
    refine h.set (getRoundRobinPeer_alike hget) (fun other hother => ?_) ?_ fun pick hpick => ?_
    · rw [attempts_concat, if_neg (Ne.symm hother), List.append_nil]
    · rw [attempts_concat, if_pos rfl]
      exact (h.requests index _ hrequest).pick h.formed hget
    · rcases List.mem_append.mp hpick with hold | hnew
      · exact h.known pick hold
      · rw [List.mem_singleton.mp hnew]
        exact hlength
  · exact h.set (getRoundRobinPeer_alike hget) (fun _ _ => rfl)
      ((h.requests index _ hrequest).busy hget) h.known
  · have halike := notifyRoundRobinPeer_alike worker.us rrp
    refine ⟨h.formed.alike halike, fun other request hother => ?_, h.known⟩
    rw [halike.single, halike.count]
    exact h.requests other request hother
  · exact h.set (freeRoundRobinPeer_alike now failed tries worker.us rrp) (fun _ _ => rfl)
      ((h.requests index _ hrequest).release h.formed hleft hstage) h.known

theorem Sound.run {worker final : Worker} {steps : List WorkerStep} (h : worker.Sound)
    (hrun : worker.run steps = some final) : final.Sound :=
  runSteps_invariant Worker.step (fun _ => True) Sound
    (fun _ _ _ _ hsound hstep => Sound.step hsound hstep) (fun _ _ => trivial) h hrun

theorem step_alike {worker next : Worker} {step : WorkerStep}
    (hstep : worker.step step = some next) : worker.us.Alike next.us := by
  rcases step_cases hstep with ⟨-, rfl⟩ |
    ⟨index, now, rrp, tries, us, after, p, -, -, hget, rfl⟩ |
    ⟨index, now, rrp, tries, us, after, -, -, hget, rfl⟩ | ⟨index, rrp, tries, -, -, rfl⟩ |
    ⟨index, now, failed, again, rrp, tries, left, stage, -, -, -, -, rfl⟩
  · exact .refl worker.us
  · exact getRoundRobinPeer_alike hget
  · exact getRoundRobinPeer_alike hget
  · exact notifyRoundRobinPeer_alike worker.us rrp
  · exact freeRoundRobinPeer_alike now failed tries worker.us rrp

theorem run_alike {worker final : Worker} {steps : List WorkerStep}
    (hrun : worker.run steps = some final) : worker.us.Alike final.us :=
  runSteps_invariant Worker.step (fun _ => True) (fun other => worker.us.Alike other.us)
    (fun _ _ _ _ halike hstep => halike.trans (step_alike hstep)) (fun _ _ => trivial)
    (.refl worker.us) hrun

/-- The peers of an upstream, as pairs of a list and a place in it. -/
def places (us : Balancer) : List (Bool × Nat) :=
  [false, true].flatMap fun backup =>
    (List.range ((us.count backup).getD 0)).map fun j => (backup, j)

theorem length_places (us : Balancer) : (places us).length = us.tries := by
  unfold places Balancer.tries Balancer.count Balancer.list
  cases us.next <;> simp

/-- However the requests of a worker interleave and fail, a request is given no peer twice
and no primary peer after a backup server, and never more peers than there are. -/
theorem attempts_distinct {servers : List Server} {us : Balancer} {steps : List WorkerStep}
    {final : Worker} (hinit : initRoundRobin servers = some us)
    (hrun : run { us } steps = some final) (index : Nat) :
    (final.attempts index).Nodup ∧
      (final.attempts index).Pairwise (fun earlier later => earlier.1 = true → later.1 = true) ∧
      (final.attempts index).length ≤ us.tries := by
  have hsound := (sound_start (Balancer.formed_initRoundRobin hinit)).run hrun
  cases hrequest : final.requests[index]? with
  | none =>
      have hnone : final.attempts index = [] := attempts_of_unknown fun pick hpick =>
        Nat.lt_of_lt_of_le (hsound.known pick hpick) (List.getElem?_eq_none_iff.mp hrequest)
      rw [hnone]
      exact ⟨List.nodup_nil, List.Pairwise.nil, Nat.zero_le _⟩
  | some request =>
      have h := hsound.requests index request hrequest
      refine ⟨h.nodup, h.primariesFirst, ?_⟩
      rw [← length_places]
      refine h.nodup.length_le_of_subset fun attempt hattempt => ?_
      obtain ⟨number, hcount, hbound⟩ := h.stored attempt hattempt
      rw [(run_alike hrun).count] at hcount
      refine List.mem_flatMap.mpr ⟨attempt.1, by cases attempt.1 <;> simp, ?_⟩
      exact List.mem_map.mpr ⟨attempt.2, by simpa [hcount] using hbound, rfl⟩

/-- A server and a backup server on the local host. -/
def failoverServers : List Server :=
  [{ addrs := [⟨0x7f000001, 9010⟩] }, { addrs := [⟨0x7f000001, 9011⟩], backup := true }]

/-- The request fails at the first peer and asks again. -/
def failoverSteps : List WorkerStep :=
  [.arrive, .connect 0 0, .release 0 1 true true, .connect 0 1]

theorem attempts_distinct_failover :
    ∃ us final, initRoundRobin failoverServers = some us ∧
      run { us } failoverSteps = some final ∧
      final.attempts 0 = [(false, 0), (true, 0)] ∧ (final.attempts 0).Nodup :=
  ⟨_, _, rfl, rfl, rfl,
    (@attempts_distinct failoverServers _ failoverSteps _ rfl rfl 0).1⟩

/-! ## When the backup servers are used -/

/-- A list from which nothing can be picked holds only peers that the request was given before
or that cannot be used now. -/
theorem Sound.of_exhausted {worker : Worker} (h : worker.Sound) {index : Nat} {request : Request}
    (hrequest : worker.requests[index]? = some request) {now : Int} {peers : Peers}
    (hlist : worker.us.list request.rrp.backup = some peers)
    (hexhausted : peers.Exhausted now request.rrp.tried) {j : Nat} {peer : Peer}
    (hpeer : peers.peer[j]? = some peer) :
    (request.rrp.backup, j) ∈ worker.attempts index ∨ peer.unavailable now = true := by
  have hbound : j < peers.number := (List.getElem?_eq_some_iff.mp hpeer).1
  have hsound := h.requests index request hrequest
  have hcount : worker.us.count request.rrp.backup = some peers.number := by
    rw [Balancer.count, hlist, Option.map_some]
  unfold Peers.Exhausted at hexhausted
  split at hexhausted
  next hsingle =>
    rw [h.formed.list_single hlist] at hsingle
    -- a single peer is the first one
    obtain ⟨hone, hnone⟩ := h.formed.single hsingle
    cases hbackup : request.rrp.backup with
    | true =>
        rw [hbackup, hnone] at hcount
        cases hcount
    | false =>
        rw [hbackup, hone, Option.some.injEq] at hcount
        obtain rfl : j = 0 := by omega
        rw [List.head?_eq_getElem?, hpeer] at hexhausted
        have hout := hexhausted peer rfl
        refine Or.inr ?_
        rw [Bool.or_eq_true] at hout
        unfold Peer.unavailable
        rcases hout with hdown | hfull
        · simp [hdown]
        · simp [hfull]
  next hseveral =>
    have hskipped := hexhausted j peer hpeer
    rw [skipped, Bool.or_eq_true] at hskipped
    refine hskipped.imp_left fun htest => ?_
    rw [h.formed.list_single hlist] at hseveral
    exact (hsound.tried (by simpa using hseveral) peers.number hcount j hbound).mp htest

theorem Sound.connect_primary {worker next : Worker} (h : worker.Sound) {index : Nat} {now : Int}
    {request : Request} (hrequest : worker.requests[index]? = some request)
    (hprimary : request.rrp.backup = false)
    (hstep : worker.step (.connect index now) = some next) :
    (∃ p, next.picks = worker.picks ++ [⟨index, false, p⟩]) ∨
      (∀ j peer, worker.us.peers.peer[j]? = some peer →
          (false, j) ∈ worker.attempts index ∨ peer.unavailable now = true) ∧
        ((∃ p, next.picks = worker.picks ++ [⟨index, true, p⟩]) ∨
          next.picks = worker.picks ∧ ∀ peers, worker.us.next = some peers →
            ∀ peer ∈ peers.peer, peer.unavailable now = true) := by
  have hlist : worker.us.list request.rrp.backup = some worker.us.peers := by
    rw [hprimary]
    rfl
  have hprimaries : worker.us.peers.Exhausted now request.rrp.tried →
      ∀ j peer, worker.us.peers.peer[j]? = some peer →
        (false, j) ∈ worker.attempts index ∨ peer.unavailable now = true :=
    fun hexhausted j peer hpeer =>
      hprimary ▸ h.of_exhausted hrequest hlist hexhausted hpeer
  rcases step_cases hstep with ⟨hwrong, -⟩ |
    ⟨_, _, rrp, tries, us', after, p, hsame, hfound, hget, rfl⟩ |
    ⟨_, _, rrp, tries, us', after, hsame, hfound, hget, rfl⟩ | ⟨_, _, _, hwrong, -⟩ |
    ⟨_, _, _, _, _, _, _, _, hwrong, -⟩
  · cases hwrong
  · cases hsame
    rw [hrequest, Option.some.injEq] at hfound
    subst hfound
    obtain ⟨_, _, _, _, _, _, _, horigin⟩ := getRoundRobinPeer_eq_some hget
    rcases horigin with ⟨hbackup, -⟩ | ⟨-, hbackup, -, hexhausted⟩
    · rw [hprimary] at hbackup
      exact Or.inl ⟨p, by rw [hbackup]⟩
    · exact Or.inr ⟨hprimaries hexhausted, Or.inl ⟨p, by rw [hbackup]⟩⟩
  · cases hsame
    rw [hrequest, Option.some.injEq] at hfound
    subst hfound
    rcases (getRoundRobinPeer_eq_none hget).2 with ⟨-, hnone, hexhausted⟩ |
      ⟨-, hexhausted, peers, hpeers, rfl, hbackups⟩
    · refine Or.inr ⟨hprimaries (hexhausted _ hlist), Or.inr ⟨rfl, fun peers hpeers => ?_⟩⟩
      rw [hnone hprimary] at hpeers
      cases hpeers
    · refine Or.inr ⟨hprimaries hexhausted, Or.inr ⟨rfl, fun other hother peer hmem => ?_⟩⟩
      rw [hpeers, Option.some.injEq] at hother
      subst hother
      obtain ⟨j, hpeer⟩ := List.mem_iff_getElem?.mp hmem
      -- none of them was tried, so that all are out of use
      have hseveral : peers.single = false := h.formed.backups peers hpeers
      unfold Peers.Exhausted at hbackups
      rw [if_neg (by simp [hseveral])] at hbackups
      have hskipped := hbackups j peer hpeer
      have hbound : j < peers.number := (List.getElem?_eq_some_iff.mp hpeer).1
      rwa [skipped, BitArray.test_clear (by decide) _ hbound, Bool.false_or] at hskipped
  · cases hwrong
  · cases hwrong

/-- A request that has not gone over to the backup servers is given a primary peer, unless
each of them was given to it before or cannot be used. It is refused only if, besides, no
backup server can be used. -/
theorem primary_unless_unavailable {servers : List Server} {us : Balancer}
    {steps : List WorkerStep} {worker next : Worker} {index : Nat} {now : Int}
    {request : Request} (hinit : initRoundRobin servers = some us)
    (hrun : run { us } steps = some worker)
    (hrequest : worker.requests[index]? = some request) (hprimary : request.rrp.backup = false)
    (hstep : worker.step (.connect index now) = some next) :
    (∃ p, next.picks = worker.picks ++ [⟨index, false, p⟩]) ∨
      (∀ j peer, worker.us.peers.peer[j]? = some peer →
          (false, j) ∈ worker.attempts index ∨ peer.unavailable now = true) ∧
        ((∃ p, next.picks = worker.picks ++ [⟨index, true, p⟩]) ∨
          next.picks = worker.picks ∧ ∀ peers, worker.us.next = some peers →
            ∀ peer ∈ peers.peer, peer.unavailable now = true) := by
  have hsound := (sound_start (Balancer.formed_initRoundRobin hinit)).run hrun
  exact hsound.connect_primary hrequest hprimary hstep

/-- After the failure the request goes over to the backup server, having been given the only
primary one. -/
theorem primary_unless_unavailable_failover :
    ∃ us worker next, initRoundRobin failoverServers = some us ∧
      run { us } (failoverSteps.take 3) = some worker ∧
      worker.step (.connect 0 1) = some next ∧
      ((∃ p, next.picks = worker.picks ++ [⟨0, false, p⟩]) ∨
        ∀ j peer, worker.us.peers.peer[j]? = some peer →
          (false, j) ∈ worker.attempts 0 ∨ peer.unavailable 1 = true) :=
  ⟨_, _, _, rfl, rfl, rfl,
    (@primary_unless_unavailable failoverServers _ (failoverSteps.take 3) _ _ 0 1 _ rfl rfl rfl rfl
      rfl).imp_right And.left⟩

end Worker

end NginxInterface.Upstream
