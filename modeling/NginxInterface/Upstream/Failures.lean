import NginxInterface.Upstream.Accounts

/-! # Peers that fail

A peer of several that has failed `max_fails` times is left alone for `fail_timeout`
seconds, whatever the other requests do. Then one request is let through to it, and again
none for that long, until a request that was given the peer reports that it is well.
-/

namespace NginxInterface.Upstream

open Foundation

/-! ## One peer -/

namespace WorkerStep

def time? : WorkerStep → Option Int
  | .connect _ now => some now
  | .release _ now _ _ => some now
  | _ => none

/-- The request that reports that its peer is well. -/
def success? : WorkerStep → Option Nat
  | .notify index => some index
  | .release index _ false _ => some index
  | _ => none

end WorkerStep

namespace Peer

/-- The peer has failed too often, and has not been given to a request since `time`. -/
structure Resting (time : Int) (peer : Peer) : Prop where
  limited : peer.maxFails ≠ 0
  failing : peer.maxFails ≤ peer.fails
  checked : time ≤ peer.checked

theorem Resting.unavailable {time now : Int} {peer : Peer} (h : peer.Resting time)
    (hnow : now ≤ time + peer.failTimeout) : peer.unavailable now = true := by
  have hchecked := h.checked
  have hdisabled : peer.disabled now = true := by
    simp only [disabled, Bool.and_eq_true, decide_eq_true_eq]
    exact ⟨⟨h.limited, h.failing⟩, by omega⟩
  simp [Peer.unavailable, hdisabled]

/-- The limits of a peer never change. -/
theorem Changes.limits {step : WorkerStep} {peer changed : Peer}
    (hchanges : peer.Changes step changed) :
    changed.maxFails = peer.maxFails ∧ changed.failTimeout = peer.failTimeout := by
  have hmoves : ∀ {now moved}, peer.Moves now moved →
      moved.maxFails = peer.maxFails ∧ moved.failTimeout = peer.failTimeout := by
    intro now moved hmoves
    cases hmoves <;> exact ⟨rfl, rfl⟩
  have hlive : peer.live.maxFails = peer.maxFails ∧ peer.live.failTimeout = peer.failTimeout := by
    unfold live
    split <;> exact ⟨rfl, rfl⟩
  cases hchanges with
  | rest => exact ⟨rfl, rfl⟩
  | connect h => exact hmoves h
  | connected h =>
      have hkept := hmoves h
      exact hkept
  | notify => exact hlive
  | disconnect => exact ⟨rfl, rfl⟩
  | release index now failed again =>
      cases failed with
      | true => exact ⟨rfl, rfl⟩
      | false => exact hlive

/-- A rested peer wakes only by a report that it is well. -/
theorem Changes.resting {time : Int} {step : WorkerStep} {peer changed : Peer}
    (hchanges : peer.Changes step changed) (h : peer.Resting time)
    (htime : ∀ now ∈ step.time?, time ≤ now ∧ now ≤ time + peer.failTimeout)
    (hlive : ∀ index ∈ step.success?, peer.checked ≤ peer.accessed) : changed.Resting time := by
  have hmoves : ∀ {now moved}, now ≤ time + peer.failTimeout → peer.Moves now moved →
      moved.Resting time := by
    intro now moved hnow hmoves
    cases hmoves with
    | rest => exact h
    | gain => exact ⟨h.limited, h.failing, h.checked⟩
    | choose husable =>
        rw [h.unavailable hnow] at husable
        cases husable
  have hkept : peer.checked ≤ peer.accessed → peer.live.Resting time := by
    intro hle
    rw [live, if_neg (by omega)]
    exact h
  cases hchanges with
  | rest => exact h
  | connect hmoved => exact hmoves (htime _ rfl).2 hmoved
  | connected hmoved =>
      have hrests := hmoves (htime _ rfl).2 hmoved
      exact ⟨hrests.limited, hrests.failing, hrests.checked⟩
  | notify index => exact hkept (hlive index rfl)
  | disconnect => exact ⟨h.limited, h.failing, h.checked⟩
  | release index now failed again =>
      cases failed with
      | true => exact ⟨h.limited, Nat.le_succ_of_le h.failing, (htime now rfl).1⟩
      | false =>
          have hrests := hkept (hlive index rfl)
          exact ⟨hrests.limited, hrests.failing, hrests.checked⟩

/-- The peer has not been given to a request since it failed last. -/
theorem Changes.checked_le {time : Int} {step : WorkerStep} {peer changed : Peer}
    (hchanges : peer.Changes step changed) (h : peer.Resting time)
    (htime : ∀ now ∈ step.time?, time ≤ now ∧ now ≤ time + peer.failTimeout)
    (hle : peer.checked ≤ peer.accessed) : changed.checked ≤ changed.accessed := by
  have hmoves : ∀ {now moved}, now ≤ time + peer.failTimeout → peer.Moves now moved →
      moved.checked ≤ moved.accessed := by
    intro now moved hnow hmoves
    cases hmoves with
    | rest => exact hle
    | gain => exact hle
    | choose husable =>
        rw [h.unavailable hnow] at husable
        cases husable
  have hlive : peer.live.checked ≤ peer.live.accessed := by
    unfold live
    split <;> exact hle
  cases hchanges with
  | rest => exact hle
  | connect hmoved => exact hmoves (htime _ rfl).2 hmoved
  | connected hmoved =>
      have hkept := hmoves (htime _ rfl).2 hmoved
      exact hkept
  | notify => exact hlive
  | disconnect => exact hle
  | release index now failed again =>
      cases failed with
      | true => exact Int.le_refl now
      | false => exact hlive

end Peer

/-! ## The peer that a request is given -/

/-- One of several peers can be used when it is picked, and its check is due again after
`fail_timeout`. -/
theorem Peers.get_chosen {now : Int} {tried after : Tried} {peers next : Peers} {p : Nat}
    (h : peers.get now tried = (next, after, some p)) (hseveral : peers.single = false) :
    ∃ before total, peers.peer[p]? = some before ∧ before.unavailable now = false ∧
      next.peer[p]? = some (before.gain.chosen now total).connect := by
  rcases Peers.get_eq_some h with ⟨hsingle, -⟩ | ⟨-, -, total, list, hpicked, rfl⟩
  · rw [hseveral] at hsingle
    cases hsingle
  · obtain ⟨before, hbefore, htakes, -⟩ := hpicked.takesPart
    refine ⟨before, total, hbefore, (Bool.or_eq_false_iff.mp htakes).2, ?_⟩
    rw [List.getElem?_modify, hpicked.getElem?, hbefore]
    simp [afterChoice, passed, htakes]

theorem getRoundRobinPeer_chosen {now : Int} {us next : Balancer} {rrp after : RrPeerData}
    {p : Nat} (hformed : us.Formed) (hseveral : us.peers.single = false)
    (h : getRoundRobinPeer now us rrp = (next, after, some p)) :
    ∃ before total, us.peer? after.backup p = some before ∧ before.unavailable now = false ∧
      next.peer? after.backup p = some (before.gain.chosen now total).connect := by
  obtain ⟨peers, peers', tried, hlist, hget, rfl, -⟩ := getRoundRobinPeer_eq_some h
  have hlistSeveral := (hformed.list_single hlist).trans hseveral
  obtain ⟨before, total, hbefore, husable, hafter⟩ := Peers.get_chosen hget hlistSeveral
  refine ⟨before, total, ?_, husable, ?_⟩
  · rw [Balancer.peer?, hlist, Option.bind_some, hbefore]
  · rw [Balancer.peer?, Balancer.list_setList_self, Option.bind_some, hafter]

namespace Worker

/-- A step gives a peer to a request or leaves the picks as they are. -/
theorem Sound.step_picks {worker next : Worker} {step : WorkerStep} (h : worker.Sound)
    (hseveral : worker.us.peers.single = false) (hstep : worker.step step = some next) :
    next.picks = worker.picks ∨
      ∃ index now backup p before total, step = .connect index now ∧
        next.picks = worker.picks ++ [⟨index, backup, p⟩] ∧
        worker.us.peer? backup p = some before ∧ before.unavailable now = false ∧
        next.us.peer? backup p = some (before.gain.chosen now total).connect := by
  rcases step_cases hstep with ⟨-, rfl⟩ |
    ⟨index, now, rrp, tries, us, after, p, rfl, hrequest, hget, rfl⟩ |
    ⟨index, now, rrp, tries, us, after, -, -, -, rfl⟩ | ⟨index, rrp, tries, -, -, rfl⟩ |
    ⟨index, now, failed, again, rrp, tries, left, stage, -, -, -, -, rfl⟩
  · exact Or.inl rfl
  · obtain ⟨before, total, hbefore, husable, hafter⟩ :=
      getRoundRobinPeer_chosen h.formed hseveral hget
    exact Or.inr ⟨index, now, after.backup, p, before, total, rfl, rfl, hbefore, husable, hafter⟩
  · exact Or.inl rfl
  · exact Or.inl rfl
  · exact Or.inl rfl

/-- A peer that is there stays there. -/
theorem Sound.step_peer_of_before {worker next : Worker} {step : WorkerStep} (h : worker.Sound)
    (hstep : worker.step step = some next) {backup : Bool} {j : Nat} {before : Peer}
    (hbefore : worker.us.peer? backup j = some before) :
    ∃ peer, next.us.peer? backup j = some peer ∧ before.Changes step peer := by
  obtain ⟨peers, hlist, hfound⟩ := Option.bind_eq_some_iff.mp hbefore
  have hcount := congrFun (step_alike hstep).count backup
  rw [Balancer.count, Balancer.count, hlist, Option.map_some, Option.map_eq_some_iff] at hcount
  obtain ⟨peers', hlist', hnumber⟩ := hcount
  have hbound : j < peers'.peer.length := by
    have hlt := (List.getElem?_eq_some_iff.mp hfound).1
    unfold Peers.number at hnumber
    omega
  have hpeer : next.us.peer? backup j = some peers'.peer[j] := by
    rw [Balancer.peer?, hlist', Option.bind_some, List.getElem?_eq_getElem hbound]
  obtain ⟨origin, horigin, hchanges⟩ := h.step_peer hstep hpeer
  rw [hbefore, Option.some.injEq] at horigin
  exact ⟨_, hpeer, horigin ▸ hchanges⟩

/-- A request reports success only on a peer that it was given. -/
theorem Sound.success_given {worker next : Worker} {step : WorkerStep} (h : worker.Sound)
    (hstep : worker.step step = some next) {backup : Bool} {j index : Nat} {before peer : Peer}
    (hindex : step.success? = some index) (hbefore : worker.us.peer? backup j = some before)
    (hpeer : next.us.peer? backup j = some peer) :
    peer = before ∨ (backup, j) ∈ worker.attempts index := by
  have hgiven : ∀ {rrp tries}, worker.requests[index]? = some ⟨rrp, tries, .connected⟩ →
      ∀ {current}, rrp.current = some current →
        (rrp.backup, current) ∈ worker.attempts index := by
    intro rrp tries hrequest current hcurrent
    obtain ⟨found, hfound, hmem⟩ := (h.requests index _ hrequest).current rfl
    rw [hcurrent, Option.some.injEq] at hfound
    exact hfound ▸ hmem
  cases step with
  | arrive => cases hindex
  | connect index now => cases hindex
  | notify other =>
      obtain rfl : other = index := Option.some.inj hindex
      rcases step_cases hstep with ⟨hwrong, -⟩ | ⟨_, _, _, _, _, _, _, hwrong, -⟩ |
        ⟨_, _, _, _, _, _, hwrong, -⟩ | ⟨_, rrp, tries, hsame, hrequest, rfl⟩ |
        ⟨_, _, _, _, _, _, _, _, hwrong, -⟩ <;> try cases hwrong
      cases hsame
      obtain ⟨current, peers, hcurrent, hlist⟩ := h.held hrequest
      obtain ⟨origin, horigin, rfl⟩ := notifyRoundRobinPeer_peer hcurrent hlist hpeer
      rw [hbefore, Option.some.injEq] at horigin
      split
      next hplace => exact Or.inr (hplace ▸ hgiven hrequest hcurrent)
      next => exact Or.inl horigin.symm
  | release other now failed again =>
      cases failed with
      | true => cases hindex
      | false =>
          obtain rfl : other = index := Option.some.inj hindex
          rcases step_cases hstep with ⟨hwrong, -⟩ | ⟨_, _, _, _, _, _, _, hwrong, -⟩ |
            ⟨_, _, _, _, _, _, hwrong, -⟩ | ⟨_, _, _, hwrong, -⟩ |
            ⟨_, _, _, _, rrp, tries, left, stage, hsame, hrequest, -, -, rfl⟩ <;>
            try cases hwrong
          cases hsame
          obtain ⟨current, peers, hcurrent, hlist⟩ := h.held hrequest
          obtain ⟨origin, horigin, hcases⟩ := freeRoundRobinPeer_peer hcurrent hlist hpeer
          rw [hbefore, Option.some.injEq] at horigin
          rcases hcases with ⟨-, hsame⟩ | ⟨hplace, -⟩
          · exact Or.inl (hsame.trans horigin.symm)
          · exact Or.inr (hplace ▸ hgiven hrequest hcurrent)

/-! ## Left alone -/

/-- Since `start` the peer has kept a property, and no request was given it. -/
structure LeftAlone (start : Worker) (backup : Bool) (j : Nat) (Rests : Peer → Prop)
    (worker : Worker) : Prop where
  sound : worker.Sound
  several : worker.us.peers.single = false
  rests : ∃ peer, worker.us.peer? backup j = some peer ∧ Rests peer
  unpicked : ∃ picks, worker.picks = start.picks ++ picks ∧
    ∀ pick ∈ picks, (pick.backup, pick.peer) ≠ (backup, j)

section Steps

variable {start worker next : Worker} {backup : Bool} {j : Nat} {Rests : Peer → Prop}

theorem LeftAlone.attempts (h : LeftAlone start backup j Rests worker) {index : Nat}
    (hmem : (backup, j) ∈ worker.attempts index) : (backup, j) ∈ start.attempts index := by
  obtain ⟨picks, hpicks, hother⟩ := h.unpicked
  unfold Worker.attempts at hmem ⊢
  rw [hpicks, List.filter_append, List.map_append] at hmem
  rcases List.mem_append.mp hmem with hold | hnew
  · exact hold
  · obtain ⟨pick, hpick, hplace⟩ := List.mem_map.mp hnew
    exact absurd hplace (hother pick (List.mem_filter.mp hpick).1)

theorem LeftAlone.step {step : WorkerStep} (h : LeftAlone start backup j Rests worker)
    (hstep : worker.step step = some next)
    (hunavailable : ∀ index now peer, step = .connect index now → Rests peer →
      peer.unavailable now = true)
    (hkept : ∀ peer changed, Rests peer → peer.Changes step changed →
      (∀ index ∈ step.success?, (backup, j) ∈ start.attempts index) → Rests changed) :
    LeftAlone start backup j Rests next := by
  obtain ⟨before, hbefore, hrests⟩ := h.rests
  obtain ⟨peer, hpeer, hchanges⟩ := h.sound.step_peer_of_before hstep hbefore
  refine ⟨h.sound.step hstep, (step_alike hstep).single.trans h.several, ⟨peer, hpeer, ?_⟩, ?_⟩
  · by_cases hgiven : ∀ index ∈ step.success?, (backup, j) ∈ start.attempts index
    · exact hkept before peer hrests hchanges hgiven
    · push Not at hgiven
      obtain ⟨index, hindex, hnot⟩ := hgiven
      rcases h.sound.success_given hstep hindex hbefore hpeer with rfl | hmem
      · exact hrests
      · exact absurd (h.attempts hmem) hnot
  · obtain ⟨picks, hpicks, hother⟩ := h.unpicked
    rcases h.sound.step_picks h.several hstep with hsame |
      ⟨index, now, list, p, chosen, total, rfl, hnew, hchosen, husable, -⟩
    · exact ⟨picks, hsame.trans hpicks, hother⟩
    · refine ⟨picks ++ [⟨index, list, p⟩], ?_, ?_⟩
      · rw [hnew, hpicks, List.append_assoc]
      · intro pick hpick
        rcases List.mem_append.mp hpick with hold | hlast
        · exact hother pick hold
        · rw [List.mem_singleton.mp hlast]
          rintro hplace
          obtain ⟨rfl, rfl⟩ := Prod.mk.inj hplace
          rw [hbefore, Option.some.injEq] at hchosen
          have hout := hunavailable index now before rfl hrests
          rw [hchosen, husable] at hout
          cases hout

end Steps

/-- A peer of several whose failure is one too many is given to no request in the next
`fail_timeout` seconds, whatever the requests do that run meanwhile, successes of others that
hold the peer included. -/
theorem failed_peer_rests {servers : List Server} {us : Balancer}
    {before after : List WorkerStep} {worker failed final : Worker} {request : Request}
    {index j : Nat} {time : Int} {again : Bool} {peer : Peer}
    (hinit : initRoundRobin servers = some us) (hseveral : us.peers.single = false)
    (hbefore : run { us } before = some worker)
    (hrequest : worker.requests[index]? = some request) (hcurrent : request.rrp.current = some j)
    (hpeer : worker.us.peer? request.rrp.backup j = some peer)
    (hlimited : peer.maxFails ≠ 0) (hlimit : peer.maxFails ≤ peer.fails + 1)
    (hfail : worker.step (.release index time true again) = some failed)
    (hafter : failed.run after = some final)
    (hclock : ∀ step ∈ after, ∀ now ∈ step.time?, time ≤ now ∧ now ≤ time + peer.failTimeout) :
    ∃ picks, final.picks = failed.picks ++ picks ∧
      ∀ pick ∈ picks, (pick.backup, pick.peer) ≠ (request.rrp.backup, j) := by
  have hsound := (sound_start (Balancer.formed_initRoundRobin hinit)).run hbefore
  have hworker : worker.us.peers.single = false :=
    (run_alike hbefore).single.trans hseveral
  have hstart : LeftAlone failed request.rrp.backup j
      (fun other => other.Resting time ∧ other.checked ≤ other.accessed ∧
        other.failTimeout = peer.failTimeout) failed := by
    refine ⟨hsound.step hfail, (step_alike hfail).single.trans hworker, ?_, [], by simp, by simp⟩
    obtain ⟨changed, hchanged, -⟩ := hsound.step_peer_of_before hfail hpeer
    refine ⟨changed, hchanged, ?_⟩
    rcases step_cases hfail with ⟨hwrong, -⟩ | ⟨_, _, _, _, _, _, _, hwrong, -⟩ |
      ⟨_, _, _, _, _, _, hwrong, -⟩ | ⟨_, _, _, hwrong, -⟩ |
      ⟨_, _, _, _, rrp, tries, left, stage, hsame, hfound, -, -, rfl⟩ <;> try cases hwrong
    cases hsame
    rw [hrequest, Option.some.injEq] at hfound
    subst hfound
    obtain ⟨current, peers, -, hlist⟩ := hsound.held hrequest
    obtain ⟨origin, horigin, hcases⟩ := freeRoundRobinPeer_peer hcurrent hlist hchanged
    rw [hpeer, Option.some.injEq] at horigin
    subst horigin
    rcases hcases with ⟨hplace, -⟩ | ⟨-, ⟨hsingle, -⟩ | ⟨-, rfl⟩⟩
    · exact absurd rfl hplace
    · rw [hsound.formed.list_single hlist, hworker] at hsingle
      cases hsingle
    · exact ⟨⟨hlimited, hlimit, Int.le_refl time⟩, Int.le_refl time, rfl⟩
  refine (runSteps_invariant Worker.step (fun step => ∀ now ∈ step.time?,
    time ≤ now ∧ now ≤ time + peer.failTimeout) _ ?_ hclock hstart hafter).unpicked
  intro state step next htime hleft hstep
  refine LeftAlone.step hleft hstep ?_ ?_
  · rintro _ now other rfl ⟨hrests, -, htimeout⟩
    exact hrests.unavailable (htimeout ▸ (htime now rfl).2)
  · rintro other changed ⟨hrests, hle, htimeout⟩ hchanges -
    rw [← htimeout] at htime
    exact ⟨hchanges.resting hrests htime fun _ _ => hle, hchanges.checked_le hrests htime hle,
      hchanges.limits.2.trans htimeout⟩

/-- Two servers on the local host. -/
def pairServers : List Server :=
  [{ addrs := [⟨0x7f000001, 9010⟩] }, { addrs := [⟨0x7f000001, 9011⟩] }]

/-- The first request is about to fail at the first peer. -/
def pairSteps : List WorkerStep := [.arrive, .connect 0 0]

/-- Five more requests, all of which go to the second peer. -/
def pairAfter : List WorkerStep :=
  (List.range 5).flatMap fun i => [.arrive, .connect (i + 1) (2 * i + 1)]

theorem failed_peer_rests_pair :
    ∃ us worker failed final, initRoundRobin pairServers = some us ∧
      run { us } pairSteps = some worker ∧
      worker.step (.release 0 1 true false) = some failed ∧
      failed.run pairAfter = some final ∧ final.picks.length = 6 ∧
      ∃ picks, final.picks = failed.picks ++ picks ∧
        ∀ pick ∈ picks, (pick.backup, pick.peer) ≠ (false, 0) :=
  ⟨_, _, _, _, rfl, rfl, rfl, rfl, rfl,
    @failed_peer_rests pairServers _ pairSteps pairAfter _ _ _ _ 0 0 1 false _ rfl rfl rfl rfl rfl
      rfl (by decide) (by decide) rfl rfl (by decide)⟩

/-- A peer that has failed too often is given to one request when its rest is over, and to no
other in the next `fail_timeout` seconds, unless one of those that were given it reports that it
is well. -/
theorem one_probe_at_a_time {servers : List Server} {us : Balancer}
    {before after : List WorkerStep} {worker probed final : Worker} {backup : Bool}
    {index j : Nat} {time : Int} {peer : Peer} (hinit : initRoundRobin servers = some us)
    (hseveral : us.peers.single = false) (hbefore : run { us } before = some worker)
    (hpeer : worker.us.peer? backup j = some peer) (hlimited : peer.maxFails ≠ 0)
    (hfailing : peer.maxFails ≤ peer.fails)
    (hprobe : worker.step (.connect index time) = some probed)
    (hpick : probed.picks = worker.picks ++ [⟨index, backup, j⟩])
    (hafter : probed.run after = some final)
    (hclock : ∀ step ∈ after, ∀ now ∈ step.time?, time ≤ now ∧ now ≤ time + peer.failTimeout)
    (hquiet : ∀ step ∈ after, ∀ other ∈ step.success?, (backup, j) ∉ probed.attempts other) :
    ∃ picks, final.picks = probed.picks ++ picks ∧
      ∀ pick ∈ picks, (pick.backup, pick.peer) ≠ (backup, j) := by
  have hsound := (sound_start (Balancer.formed_initRoundRobin hinit)).run hbefore
  have hworker : worker.us.peers.single = false :=
    (run_alike hbefore).single.trans hseveral
  have hstart : LeftAlone probed backup j
      (fun other => other.Resting time ∧ other.failTimeout = peer.failTimeout) probed := by
    refine ⟨hsound.step hprobe, (step_alike hprobe).single.trans hworker, ?_, [], by simp, by simp⟩
    rcases hsound.step_picks hworker hprobe with hsame |
      ⟨_, _, list, p, chosen, total, hconnect, hnew, hchosen, husable, hprobed⟩
    · rw [hsame] at hpick
      simpa using congrArg List.length hpick
    · cases hconnect
      rw [hpick, List.append_cancel_left_eq] at hnew
      cases hnew
      rw [hpeer, Option.some.injEq] at hchosen
      subst hchosen
      -- it was not left out although it had failed, so that its rest was over
      have hover : time - peer.checked > peer.failTimeout := by
        by_contra hnot
        rw [(Peer.Resting.mk hlimited hfailing (Int.le_refl _)).unavailable (by omega)] at husable
        cases husable
      exact ⟨_, hprobed, ⟨hlimited, hfailing, Int.le_of_eq (if_pos hover).symm⟩, rfl⟩
  refine (runSteps_invariant Worker.step (fun step => (∀ now ∈ step.time?,
    time ≤ now ∧ now ≤ time + peer.failTimeout) ∧
      ∀ other ∈ step.success?, (backup, j) ∉ probed.attempts other) _ ?_
    (fun step hmem => ⟨hclock step hmem, hquiet step hmem⟩) hstart hafter).unpicked
  rintro state step next ⟨htime, hnone⟩ hleft hstep
  refine LeftAlone.step hleft hstep ?_ ?_
  · rintro _ now other rfl ⟨hrests, htimeout⟩
    exact hrests.unavailable (htimeout ▸ (htime now rfl).2)
  · rintro other changed ⟨hrests, htimeout⟩ hchanges hgiven
    rw [← htimeout] at htime
    refine ⟨hchanges.resting hrests htime ?_, hchanges.limits.2.trans htimeout⟩
    exact fun index hindex => absurd (hgiven index hindex) (hnone index hindex)

/-- The first peer has failed and rested, and the fourth request is about to probe it. -/
def probeSteps : List WorkerStep :=
  [.arrive, .connect 0 0, .release 0 1 true false, .arrive, .connect 1 20, .arrive, .connect 2 20,
    .arrive]

/-- Requests that come before the probe is answered, one of which succeeds at the other peer. -/
def probeAfter : List WorkerStep :=
  [.arrive, .connect 4 25, .release 4 26 false false, .arrive, .connect 5 30]

theorem one_probe_at_a_time_pair :
    ∃ us worker probed final, initRoundRobin pairServers = some us ∧
      run { us } probeSteps = some worker ∧ worker.step (.connect 3 20) = some probed ∧
      probed.picks = worker.picks ++ [⟨3, false, 0⟩] ∧ probed.run probeAfter = some final ∧
      ∃ picks, final.picks = probed.picks ++ picks ∧
        ∀ pick ∈ picks, (pick.backup, pick.peer) ≠ (false, 0) :=
  ⟨_, _, _, _, rfl, rfl, rfl, rfl, rfl,
    @one_probe_at_a_time pairServers _ probeSteps probeAfter _ _ _ false 3 0 20 _ rfl rfl rfl rfl
      (by decide) (by decide) rfl rfl rfl (by decide) (by decide)⟩

end Worker

end NginxInterface.Upstream
