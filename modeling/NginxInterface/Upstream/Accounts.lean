import Mathlib.Algebra.BigOperators.Group.List.Basic
import NginxInterface.Upstream.Requests

/-! # Accounts of the peers

Three sums that hold in every state of a worker, however its requests interleave and
fail: a peer has as many connections as requests hold it, its effective weight stays between
nothing and its weight, and the credits of a list add up to a multiple of 2⁶⁴.
-/

namespace NginxInterface.Upstream

open Foundation ConfFile

/-! ## One peer -/

namespace Peer

/-- What is left after failures of a weight that fits into an `ngx_int_t`. -/
structure Weighted (peer : Peer) : Prop where
  nonneg : 0 ≤ peer.effectiveWeight
  le_weight : peer.effectiveWeight ≤ peer.weight
  fits : peer.weight ≤ maxIntValue

theorem Weighted.gain {peer : Peer} (h : peer.Weighted) : peer.gain.Weighted := by
  obtain ⟨hnonneg, hle, hfits⟩ := h
  have hmax : maxIntValue = 2 ^ 63 - 1 := rfl
  have hnext : peer.effectiveWeight < peer.weight →
      ngxInt (peer.effectiveWeight + 1) = peer.effectiveWeight + 1 := fun hless =>
    ngxInt_of_range (by omega) (by omega)
  refine ⟨?_, ?_, hfits⟩ <;> simp only [Peer.gain] <;> split
  next hless =>
    rw [hnext hless]
    omega
  next => exact hnonneg
  next hless =>
    rw [hnext hless]
    omega
  next => exact hle

theorem Moves.weighted {now : Int} {peer moved : Peer} (hmoves : peer.Moves now moved)
    (h : peer.Weighted) : moved.Weighted := by
  cases hmoves with
  | rest => exact h
  | gain => exact h.gain
  | choose => exact { h.gain with }

theorem Moves.conns {now : Int} {peer moved : Peer} (hmoves : peer.Moves now moved) :
    moved.conns = peer.conns := by
  cases hmoves <;> rfl

@[simp] theorem connect_currentWeight (peer : Peer) :
    peer.connect.currentWeight = peer.currentWeight := rfl

@[simp] theorem disconnect_currentWeight (peer : Peer) :
    peer.disconnect.currentWeight = peer.currentWeight := rfl

theorem live_weighted {peer : Peer} (h : peer.Weighted) : peer.live.Weighted := by
  unfold live
  split
  · exact { h with }
  · exact h

@[simp] theorem live_conns (peer : Peer) : peer.live.conns = peer.conns := by
  unfold live
  split <;> rfl

@[simp] theorem live_currentWeight (peer : Peer) :
    peer.live.currentWeight = peer.currentWeight := by
  unfold live
  split <;> rfl

@[simp] theorem release_conns (now : Int) (failed : Bool) (peer : Peer) :
    (peer.release now failed).conns = peer.conns - 1 := by
  cases failed <;> simp [release]

@[simp] theorem release_currentWeight (now : Int) (failed : Bool) (peer : Peer) :
    (peer.release now failed).currentWeight = peer.currentWeight := by
  cases failed <;> simp [release]

theorem release_weighted (now : Int) (failed : Bool) {peer : Peer} (h : peer.Weighted) :
    (peer.release now failed).Weighted := by
  cases failed with
  | false => exact { live_weighted h with }
  | true =>
      obtain ⟨hnonneg, hle, hfits⟩ := h
      have hmax : maxIntValue = 2 ^ 63 - 1 := rfl
      have hshare : (0 : Int) ≤ (peer.weight / peer.maxFails : Nat) := Int.natCast_nonneg _
      have hpart : peer.weight / peer.maxFails ≤ peer.weight := Nat.div_le_self _ _
      have hless : ngxInt (peer.effectiveWeight - (peer.weight / peer.maxFails : Nat)) =
          peer.effectiveWeight - (peer.weight / peer.maxFails : Nat) :=
        ngxInt_of_range (by omega) (by omega)
      refine ⟨?_, ?_, hfits⟩ <;> simp only [release, if_true, hless] <;> split <;> split <;> omega

end Peer

/-! ## The credits of a list -/

def Peers.credit (peers : Peers) : Int := (peers.peer.map Peer.currentWeight).sum

theorem map_modify_of_eq {Item Value : Type} (items : List Item) (i : Nat) {change : Item → Item}
    {view : Item → Value} (h : ∀ item, view (change item) = view item) :
    (items.modify i change).map view = items.map view := by
  apply List.ext_getElem?
  intro j
  rw [List.getElem?_map, List.getElem?_map, List.getElem?_modify]
  cases items[j]? with
  | none => rfl
  | some item => by_cases hj : i = j <;> simp [hj, h]

theorem Peers.get_credit {now : Int} {tried after : Tried} {peers next : Peers} {p : Nat}
    (h : peers.get now tried = (next, after, some p)) :
    next.credit % 2 ^ 64 = peers.credit % 2 ^ 64 := by
  unfold Peers.credit
  rcases Peers.get_eq_some h with ⟨-, -, -, -, rfl⟩ | ⟨-, -, total, list, hpicked, rfl⟩
  · rw [map_modify_of_eq _ _ Peer.connect_currentWeight]
  · rw [map_modify_of_eq _ _ Peer.connect_currentWeight, hpicked.sum_eq]

theorem Peers.free_credit (now : Int) (failed : Bool) (tries current : Nat) (peers : Peers) :
    (peers.free now failed tries current).1.credit = peers.credit := by
  unfold Peers.credit Peers.free
  split
  · rw [map_modify_of_eq _ _ Peer.disconnect_currentWeight]
  · rw [map_modify_of_eq _ _ (Peer.release_currentWeight now failed)]

namespace Balancer

/-- The credits of each list add up to a multiple of 2⁶⁴. -/
def Settled (us : Balancer) : Prop :=
  ∀ backup peers, us.list backup = some peers → peers.credit % 2 ^ 64 = 0

theorem Settled.setList {us : Balancer} (h : us.Settled) {backup : Bool} {peers peers' : Peers}
    (hlist : us.list backup = some peers)
    (hcredit : peers'.credit % 2 ^ 64 = peers.credit % 2 ^ 64) :
    (us.setList backup peers').Settled := by
  intro other found hfound
  by_cases hother : other = backup
  · rw [hother, list_setList_self, Option.some.injEq] at hfound
    rw [← hfound, hcredit]
    exact h backup peers hlist
  · rw [list_setList_of_ne us peers' hother] at hfound
    exact h other found hfound

end Balancer

/-! ## Initial peers -/

theorem mem_peers_init {servers : List Server} {peer : Peer}
    (h : peer ∈ (Peers.ofServers servers).peer) :
    (∃ server ∈ servers, peer.weight = server.weight) ∧
      peer.currentWeight = 0 ∧ peer.effectiveWeight = peer.weight ∧ peer.conns = 0 ∧
      peer.fails = 0 := by
  obtain ⟨server, hserver, hpeer⟩ := List.mem_flatMap.mp h
  obtain ⟨sockaddr, -, rfl⟩ := List.mem_map.mp hpeer
  exact ⟨⟨server, hserver, rfl⟩, rfl, rfl, rfl, rfl⟩

theorem initRoundRobin_list {servers : List Server} {us : Balancer} {backup : Bool}
    {peers : Peers} (h : initRoundRobin servers = some us) (hlist : us.list backup = some peers) :
    peers.peer =
      (Peers.ofServers (servers.filter fun server => server.backup == backup)).peer := by
  unfold initRoundRobin at h
  simp only at h
  split at h
  · cases h
  · split at h
    · cases h
      cases backup with
      | false => simpa using congrArg Peers.peer (Option.some.inj hlist).symm
      | true => cases hlist
    · cases h
      cases backup with
      | false => simpa using congrArg Peers.peer (Option.some.inj hlist).symm
      | true => simpa using congrArg Peers.peer (Option.some.inj hlist).symm

theorem initRoundRobin_settled {servers : List Server} {us : Balancer}
    (h : initRoundRobin servers = some us) : us.Settled := by
  intro backup peers hlist
  have hzero : peers.credit = 0 := by
    unfold Peers.credit
    rw [initRoundRobin_list h hlist]
    apply List.sum_eq_zero
    intro credit hcredit
    obtain ⟨peer, hpeer, rfl⟩ := List.mem_map.mp hcredit
    exact (mem_peers_init hpeer).2.1
  rw [hzero]
  rfl

theorem initRoundRobin_peer {servers : List Server} {us : Balancer} {backup : Bool} {j : Nat}
    {peer : Peer} (h : initRoundRobin servers = some us)
    (hpeer : us.peer? backup j = some peer) :
    (∃ server ∈ servers, peer.weight = server.weight) ∧
      peer.currentWeight = 0 ∧ peer.effectiveWeight = peer.weight ∧ peer.conns = 0 ∧
      peer.fails = 0 := by
  obtain ⟨peers, hlist, hfound⟩ := Option.bind_eq_some_iff.mp hpeer
  have hmem := List.mem_of_getElem? hfound
  rw [initRoundRobin_list h hlist] at hmem
  obtain ⟨⟨server, hserver, hweight⟩, hinit⟩ := mem_peers_init hmem
  exact ⟨⟨server, List.mem_of_mem_filter hserver, hweight⟩, hinit⟩

/-! ## A worker -/

/-- What a step can do to a peer, for whatever request it is. -/
inductive Peer.Changes (peer : Peer) : WorkerStep → Peer → Prop where
  | rest (step : WorkerStep) : Changes peer step peer
  | connect {index : Nat} {now : Int} {moved : Peer} (hmoves : peer.Moves now moved) :
      Changes peer (.connect index now) moved
  | connected {index : Nat} {now : Int} {moved : Peer} (hmoves : peer.Moves now moved) :
      Changes peer (.connect index now) moved.connect
  | notify (index : Nat) : Changes peer (.notify index) peer.live
  | disconnect (index : Nat) (now : Int) (failed again : Bool) :
      Changes peer (.release index now failed again) peer.disconnect
  | release (index : Nat) (now : Int) (failed again : Bool) :
      Changes peer (.release index now failed again) (peer.release now failed)

theorem Peer.Changes.weighted {step : WorkerStep} {peer changed : Peer}
    (hchanges : peer.Changes step changed) (h : peer.Weighted) : changed.Weighted := by
  cases hchanges with
  | rest => exact h
  | connect hmoves => exact hmoves.weighted h
  | connected hmoves => exact { hmoves.weighted h with }
  | notify => exact Peer.live_weighted h
  | disconnect => exact { h with }
  | release index now failed again => exact Peer.release_weighted now failed h

/-- The request holds this peer. -/
def Request.holds (backup : Bool) (j : Nat) (request : Request) : Bool :=
  request.stage = .connected ∧ request.rrp.backup = backup ∧ request.rrp.current = some j

namespace Worker

/-- A connected request holds a peer of its list. -/
theorem Sound.held {worker : Worker} (h : worker.Sound) {index : Nat} {rrp : RrPeerData}
    {tries : Nat} (hrequest : worker.requests[index]? = some ⟨rrp, tries, .connected⟩) :
    ∃ current peers, rrp.current = some current ∧ worker.us.list rrp.backup = some peers := by
  obtain ⟨current, hcurrent, -⟩ := (h.requests index _ hrequest).current rfl
  obtain ⟨number, hnumber⟩ := (h.requests index _ hrequest).listed
  obtain ⟨peers, hlist, -⟩ := Option.map_eq_some_iff.mp hnumber
  exact ⟨current, peers, hcurrent, hlist⟩

theorem Sound.step_peer {worker next : Worker} {step : WorkerStep} (h : worker.Sound)
    (hstep : worker.step step = some next) {backup : Bool} {j : Nat} {peer : Peer}
    (hpeer : next.us.peer? backup j = some peer) :
    ∃ before, worker.us.peer? backup j = some before ∧ before.Changes step peer := by
  rcases step_cases hstep with ⟨-, rfl⟩ |
    ⟨index, now, rrp, tries, us, after, p, rfl, hrequest, hget, rfl⟩ |
    ⟨index, now, rrp, tries, us, after, rfl, hrequest, hget, rfl⟩ |
    ⟨index, rrp, tries, rfl, hrequest, rfl⟩ |
    ⟨index, now, failed, again, rrp, tries, left, stage, rfl, hrequest, -, -, rfl⟩
  · exact ⟨peer, hpeer, .rest _⟩
  · obtain ⟨before, moved, hbefore, hmoves, rfl⟩ := getRoundRobinPeer_peer hget hpeer
    refine ⟨before, hbefore, ?_⟩
    split
    · exact .connected hmoves
    · exact .connect hmoves
  · obtain ⟨rfl, -⟩ := getRoundRobinPeer_eq_none hget
    exact ⟨peer, hpeer, .rest _⟩
  · obtain ⟨current, peers, hcurrent, hlist⟩ := h.held hrequest
    obtain ⟨before, hbefore, rfl⟩ := notifyRoundRobinPeer_peer hcurrent hlist hpeer
    refine ⟨before, hbefore, ?_⟩
    split
    · exact .notify index
    · exact .rest _
  · obtain ⟨current, peers, hcurrent, hlist⟩ := h.held hrequest
    obtain ⟨before, hbefore, hcases⟩ := freeRoundRobinPeer_peer hcurrent hlist hpeer
    refine ⟨before, hbefore, ?_⟩
    rcases hcases with ⟨-, rfl⟩ | ⟨-, ⟨-, rfl⟩ | ⟨-, rfl⟩⟩
    · exact .rest _
    · exact .disconnect index now failed again
    · exact .release index now failed again

theorem Sound.step_settled {worker next : Worker} {step : WorkerStep} (h : worker.Sound)
    (hsettled : worker.us.Settled) (hstep : worker.step step = some next) : next.us.Settled := by
  rcases step_cases hstep with ⟨-, rfl⟩ |
    ⟨index, now, rrp, tries, us, after, p, -, hrequest, hget, rfl⟩ |
    ⟨index, now, rrp, tries, us, after, -, hrequest, hget, rfl⟩ |
    ⟨index, rrp, tries, -, hrequest, rfl⟩ |
    ⟨index, now, failed, again, rrp, tries, left, stage, -, hrequest, -, -, rfl⟩
  · exact hsettled
  · obtain ⟨peers, peers', tried, hlist, hpick, rfl, -⟩ := getRoundRobinPeer_eq_some hget
    exact hsettled.setList hlist (Peers.get_credit hpick)
  · obtain ⟨rfl, -⟩ := getRoundRobinPeer_eq_none hget
    exact hsettled
  · obtain ⟨current, peers, hcurrent, hlist⟩ := h.held hrequest
    dsimp only
    rw [notifyRoundRobinPeer_eq hcurrent hlist]
    exact hsettled.setList hlist (congrArg (fun weights : List Int => weights.sum % 2 ^ 64)
      (map_modify_of_eq _ _ Peer.live_currentWeight))
  · obtain ⟨current, peers, hcurrent, hlist⟩ := h.held hrequest
    dsimp only
    rw [freeRoundRobinPeer_eq hcurrent hlist]
    exact hsettled.setList hlist (congrArg (· % 2 ^ 64) (Peers.free_credit ..))

/-! ## Connections -/

/-- How many requests hold a peer. -/
def connections (worker : Worker) (backup : Bool) (j : Nat) : Nat :=
  worker.requests.countP (Request.holds backup j)

/-- Replacing a request changes the connections of a peer by whether the old one and the new
one hold it. -/
theorem connections_set {worker : Worker} {us : Balancer} {picks : List Pick} {index : Nat}
    {request changed : Request} (hrequest : worker.requests[index]? = some request)
    (backup : Bool) (j : Nat) :
    connections ⟨us, worker.requests.set index changed, picks⟩ backup j +
        (if request.holds backup j then 1 else 0) =
      worker.connections backup j + if changed.holds backup j then 1 else 0 := by
  obtain ⟨hlength, hfound⟩ := List.getElem?_eq_some_iff.mp hrequest
  unfold connections
  rw [List.countP_set hlength, hfound]
  have hheld : request.holds backup j = true →
      0 < worker.requests.countP (Request.holds backup j) :=
    fun htrue => List.countP_pos_iff.mpr ⟨request, List.mem_of_getElem? hrequest, htrue⟩
  split
  next htrue =>
    have hpos := hheld htrue
    omega
  next => omega

/-- A peer has as many connections as there are requests that hold it. -/
def Counted (worker : Worker) : Prop :=
  ∀ backup j peer, worker.us.peer? backup j = some peer →
    peer.conns = worker.connections backup j

theorem Sound.step_counted {worker next : Worker} {step : WorkerStep} (h : worker.Sound)
    (hcounted : worker.Counted) (hstep : worker.step step = some next) : next.Counted := by
  intro backup j peer hpeer
  rcases step_cases hstep with ⟨-, rfl⟩ |
    ⟨index, now, rrp, tries, us, after, p, -, hrequest, hget, rfl⟩ |
    ⟨index, now, rrp, tries, us, after, -, hrequest, hget, rfl⟩ |
    ⟨index, rrp, tries, -, hrequest, rfl⟩ |
    ⟨index, now, failed, again, rrp, tries, left, stage, -, hrequest, -, hstage, rfl⟩
  · rw [hcounted backup j peer hpeer, connections, connections, List.countP_append]
    simp [Request.holds]
  · obtain ⟨_, _, _, -, -, -, hcurrent, -⟩ := getRoundRobinPeer_eq_some hget
    obtain ⟨before, moved, hbefore, hmoves, rfl⟩ := getRoundRobinPeer_peer hget hpeer
    have hset := @connections_set worker us (worker.picks ++ [⟨index, after.backup, p⟩]) index _
      ⟨after, tries, .connected⟩ hrequest backup j
    rw [← hcounted backup j before hbefore] at hset
    by_cases hplace : (backup, j) = (after.backup, p)
    · obtain ⟨rfl, rfl⟩ := Prod.mk.inj hplace
      simpa [Request.holds, hcurrent, Peer.connect, hmoves.conns] using hset.symm
    · have hother : ¬(after.backup = backup ∧ p = j) := by
        rintro ⟨rfl, rfl⟩
        exact hplace rfl
      rw [if_neg hplace, hmoves.conns]
      simpa [Request.holds, hcurrent, hother] using hset.symm
  · obtain ⟨rfl, -⟩ := getRoundRobinPeer_eq_none hget
    rw [hcounted backup j peer hpeer]
    simpa [Request.holds] using (@connections_set worker worker.us worker.picks index _
      ⟨after, tries, .finished⟩ hrequest backup j).symm
  · obtain ⟨current, peers, hcurrent, hlist⟩ := h.held hrequest
    obtain ⟨before, hbefore, rfl⟩ := notifyRoundRobinPeer_peer hcurrent hlist hpeer
    have hconns := hcounted backup j before hbefore
    split
    · rw [Peer.live_conns]
      exact hconns
    · exact hconns
  · obtain ⟨current, peers, hcurrent, hlist⟩ := h.held hrequest
    obtain ⟨before, hbefore, hcases⟩ := freeRoundRobinPeer_peer hcurrent hlist hpeer
    have hset := @connections_set worker (freeRoundRobinPeer now failed tries worker.us rrp).1
      worker.picks index _ ⟨rrp, left, stage⟩ hrequest backup j
    have hidle : Request.holds backup j ⟨rrp, left, stage⟩ = false := by
      rcases hstage with rfl | ⟨rfl, -⟩ <;> simp [Request.holds]
    rw [← hcounted backup j before hbefore, hidle] at hset
    rcases hcases with ⟨hplace, rfl⟩ | ⟨hplace, hcases⟩
    · have hother : ¬(rrp.backup = backup ∧ current = j) := by
        rintro ⟨rfl, rfl⟩
        exact hplace rfl
      simpa [Request.holds, hcurrent, hother] using hset.symm
    · obtain ⟨rfl, rfl⟩ := Prod.mk.inj hplace
      have hless : peer.conns = before.conns - 1 := by
        rcases hcases with ⟨-, rfl⟩ | ⟨-, rfl⟩
        · rfl
        · exact Peer.release_conns ..
      have hone : Request.holds rrp.backup j ⟨rrp, tries, .connected⟩ = true := by
        simp [Request.holds, hcurrent]
      rw [hone, if_pos rfl, if_neg (by simp)] at hset
      -- the request is one of those counted, so that nothing is taken from zero
      omega

/-! ## Runs -/

structure Accounted (worker : Worker) : Prop where
  sound : worker.Sound
  counted : worker.Counted
  weighted : ∀ backup j peer, worker.us.peer? backup j = some peer → peer.Weighted
  settled : worker.us.Settled

theorem accounted_start {servers : List Server} {us : Balancer}
    (h : initRoundRobin servers = some us)
    (hweights : ∀ server ∈ servers, server.weight ≤ maxIntValue) : Accounted { us } where
  sound := sound_start (Balancer.formed_initRoundRobin h)
  counted := fun backup j peer hpeer => (initRoundRobin_peer h hpeer).2.2.2.1
  weighted := by
    intro backup j peer hpeer
    obtain ⟨⟨server, hserver, hweight⟩, -, heffective, -, -⟩ := initRoundRobin_peer h hpeer
    have hfits := hweights server hserver
    exact ⟨by omega, by omega, by omega⟩
  settled := initRoundRobin_settled h

theorem Accounted.step {worker next : Worker} {step : WorkerStep} (h : worker.Accounted)
    (hstep : worker.step step = some next) : next.Accounted where
  sound := h.sound.step hstep
  counted := h.sound.step_counted h.counted hstep
  weighted := by
    intro backup j peer hpeer
    obtain ⟨before, hbefore, hchanges⟩ := h.sound.step_peer hstep hpeer
    exact hchanges.weighted (h.weighted backup j before hbefore)
  settled := h.sound.step_settled h.settled hstep

theorem Accounted.run {worker final : Worker} {steps : List WorkerStep} (h : worker.Accounted)
    (hrun : worker.run steps = some final) : final.Accounted :=
  runSteps_invariant Worker.step (fun _ => True) Accounted
    (fun _ _ _ _ haccounted hstep => Accounted.step haccounted hstep) (fun _ _ => trivial) h hrun

/-- In every state of a worker a peer has as many connections as there are requests that hold
it, its effective weight lies between nothing and its weight, and the credits of its list
add up to a multiple of 2⁶⁴. -/
theorem accounts_balance {servers : List Server} {us : Balancer} {steps : List WorkerStep}
    {worker : Worker} {backup : Bool} {peers : Peers} (hinit : initRoundRobin servers = some us)
    (hweights : ∀ server ∈ servers, server.weight ≤ maxIntValue)
    (hrun : run { us } steps = some worker) (hlist : worker.us.list backup = some peers) :
    (∀ j peer, peers.peer[j]? = some peer →
      peer.conns = worker.connections backup j ∧
        0 ≤ peer.effectiveWeight ∧ peer.effectiveWeight ≤ peer.weight) ∧
      (peers.peer.map Peer.currentWeight).sum % 2 ^ 64 = 0 := by
  have h := (accounted_start hinit hweights).run hrun
  refine ⟨fun j peer hpeer => ?_, h.settled backup peers hlist⟩
  have hfound : worker.us.peer? backup j = some peer := by
    rw [Balancer.peer?, hlist, Option.bind_some, hpeer]
  have hweighted := h.weighted backup j peer hfound
  exact ⟨h.counted backup j peer hfound, hweighted.nonneg, hweighted.le_weight⟩

/-- Three servers with the weight 2⁶², and two requests. -/
def heavyServers : List Server :=
  [{ addrs := [⟨0x7f000001, 9010⟩], weight := 2 ^ 62 },
    { addrs := [⟨0x7f000001, 9011⟩], weight := 2 ^ 62 },
    { addrs := [⟨0x7f000001, 9012⟩], weight := 2 ^ 62 }]

def heavySteps : List WorkerStep := [.arrive, .connect 0 0, .arrive, .connect 1 0]

/-- The credits have wrapped around: the first peer is picked twice, and the sum is a
multiple of 2⁶⁴ but not 0. -/
theorem accounts_balance_heavy :
    ∃ us worker, initRoundRobin heavyServers = some us ∧
      run { us } heavySteps = some worker ∧ worker.connections false 0 = 2 ∧
      worker.us.peers.peer.map Peer.currentWeight = [0, -2 ^ 63, -2 ^ 63] ∧
      (worker.us.peers.peer.map Peer.currentWeight).sum % 2 ^ 64 = 0 :=
  ⟨_, _, rfl, rfl, rfl, rfl,
    (@accounts_balance heavyServers _ heavySteps _ false _ rfl (by decide) rfl rfl).2⟩

end Worker

end NginxInterface.Upstream
