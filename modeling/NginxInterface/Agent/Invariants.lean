import NginxInterface.Agent.System

/-! # What a step of the agent can do

One inversion lemma lists the effects of every step. From it follow the two
facts that all later arguments rest on: only arrivals change the configuration,
and a pending write always carries the rendering of the configuration as its own
call left it.
-/

namespace NginxInterface

open Foundation Js

variable {N : Type}

namespace Agent

/-! ## Phases -/

@[simp] theorem setPhase_conf (agent : Agent N) (index : Nat) (phase : Phase) :
    (agent.setPhase index phase).conf = agent.conf := rfl

@[simp] theorem setPhase_file (agent : Agent N) (index : Nat) (phase : Phase) :
    (agent.setPhase index phase).file = agent.file := rfl

@[simp] theorem setPhase_calls (agent : Agent N) (index : Nat) (phase : Phase) :
    (agent.setPhase index phase).calls = agent.calls := by
  unfold setPhase calls
  apply List.ext_getElem?
  intro position
  simp only [List.getElem?_map, List.getElem?_modify]
  cases agent.tasks[position]? with
  | none => rfl
  | some task => by_cases h : index = position <;> simp [h]

theorem phase?_setPhase_self (agent : Agent N) {index : Nat} {old : Phase} (phase : Phase)
    (hold : agent.phase? index = some old) :
    (agent.setPhase index phase).phase? index = some phase := by
  unfold phase? setPhase at *
  obtain ⟨task, htask, _⟩ := Option.map_eq_some_iff.mp hold
  simp [htask]

theorem phase?_setPhase_of_ne (agent : Agent N) {index other : Nat} (phase : Phase)
    (hne : other ≠ index) :
    (agent.setPhase index phase).phase? other = agent.phase? other := by
  unfold phase? setPhase
  cases htask : agent.tasks[other]? with
  | none => simp [List.getElem?_modify, htask]
  | some task => simp [htask, Ne.symm hne]

theorem setPhase_setPhase (agent : Agent N) (index : Nat) (first second : Phase) :
    (agent.setPhase index first).setPhase index second = agent.setPhase index second := by
  unfold setPhase
  simp only [Agent.mk.injEq, true_and]
  apply List.ext_getElem?
  intro position
  simp only [List.getElem?_modify]
  cases agent.tasks[position]? with
  | none => rfl
  | some task => by_cases h : index = position <;> simp [h]

theorem phase?_lt {agent : Agent N} {index : Nat} {phase : Phase}
    (h : agent.phase? index = some phase) : index < agent.calls.length := by
  unfold phase? at h
  obtain ⟨task, htask, _⟩ := Option.map_eq_some_iff.mp h
  unfold calls
  rw [List.length_map]
  exact (List.getElem?_eq_some_iff.mp htask).1

theorem phase?_arrive (agent : Agent N) (task : Task N) (conf : Conf N) (index : Nat) :
    ({ agent with conf := conf, tasks := agent.tasks ++ [task] } : Agent N).phase? index =
      if index = agent.calls.length then some task.phase else agent.phase? index := by
  unfold phase? calls
  rw [List.length_map]
  rcases Nat.lt_trichotomy index agent.tasks.length with hlt | rfl | hgt
  · rw [List.getElem?_append_left hlt, if_neg (Nat.ne_of_lt hlt)]
  · simp
  · rw [if_neg (Nat.ne_of_gt hgt), List.getElem?_eq_none (by simp; omega),
      List.getElem?_eq_none (by omega)]

theorem arrivals_cons (step : Step N) (rest : List (Step N)) :
    arrivals (step :: rest) = arrivals [step] ++ arrivals rest := by
  cases step <;> rfl

variable [Number N]

/-! ## Inversion -/

/-- Everything an enabled step can do, with the phase that enables it. -/
theorem step_cases {agent next : Agent N} {step : Step N} (h : agent.step step = some next) :
    (∃ call, step = .arrive call ∧
      next = { agent with
        conf := (call.exec agent.conf).1
        tasks := agent.tasks ++
          [⟨call, arrivalPhase (call.exec agent.conf).1 (call.exec agent.conf).2⟩] }) ∨
    (∃ index cfg, step = .openFile index ∧ agent.phase? index = some (.writing cfg) ∧
      next = { agent.setPhase index (.opened cfg 0) with file := [] }) ∨
    (∃ index count cfg position, step = .writeBytes index count ∧
      agent.phase? index = some (.opened cfg position) ∧ position + count ≤ cfg.length ∧
      next = { agent.setPhase index (.opened cfg (position + count)) with
        file := writeAt nul agent.file position ((cfg.drop position).take count) }) ∨
    (∃ index cfg, step = .closeFile index ∧
      agent.phase? index = some (.opened cfg cfg.length) ∧
      next = agent.setPhase index .closed) ∨
    (∃ index cfg, step = .writeFile index ∧ agent.phase? index = some (.writing cfg) ∧
      next = { agent.setPhase index .closed with file := cfg }) ∨
    (∃ index, step = .failFile index ∧ (∃ cfg, agent.phase? index = some (.writing cfg) ∨
        ∃ position, agent.phase? index = some (.opened cfg position)) ∧
      next = agent.setPhase index (.replied (some .system))) ∨
    (∃ index delivered, step = .reload index delivered ∧
      agent.phase? index = some .closed ∧
      next = agent.setPhase index
        (if delivered then .replying none else .replied (some .system))) ∨
    (∃ index err, step = .reply index ∧ agent.phase? index = some (.replying err) ∧
      next = agent.setPhase index (.replied err)) := by
  cases step with
  | arrive call => exact Or.inl ⟨call, rfl, (Option.some.inj h).symm⟩
  | openFile index =>
      simp only [Agent.step] at h
      split at h
      next cfg hphase =>
        exact Or.inr (Or.inl ⟨index, cfg, rfl, hphase, (Option.some.inj h).symm⟩)
      next => cases h
  | writeBytes index count =>
      simp only [Agent.step] at h
      split at h
      next cfg position hphase =>
        split at h
        next hbound =>
          exact Or.inr (Or.inr (Or.inl
            ⟨index, count, cfg, position, rfl, hphase, hbound.2, (Option.some.inj h).symm⟩))
        next => cases h
      next => cases h
  | closeFile index =>
      simp only [Agent.step] at h
      split at h
      next cfg position hphase =>
        split at h
        next hend =>
          subst hend
          exact Or.inr (Or.inr (Or.inr (Or.inl
            ⟨index, cfg, rfl, hphase, (Option.some.inj h).symm⟩)))
        next => cases h
      next => cases h
  | writeFile index =>
      simp only [Agent.step] at h
      split at h
      next cfg hphase =>
        exact Or.inr (Or.inr (Or.inr (Or.inr (Or.inl
          ⟨index, cfg, rfl, hphase, (Option.some.inj h).symm⟩))))
      next => cases h
  | failFile index =>
      simp only [Agent.step] at h
      split at h
      next cfg hphase =>
        exact Or.inr (Or.inr (Or.inr (Or.inr (Or.inr (Or.inl
          ⟨index, rfl, ⟨cfg, Or.inl hphase⟩, (Option.some.inj h).symm⟩)))))
      next cfg position hphase =>
        exact Or.inr (Or.inr (Or.inr (Or.inr (Or.inr (Or.inl
          ⟨index, rfl, ⟨cfg, Or.inr ⟨position, hphase⟩⟩, (Option.some.inj h).symm⟩)))))
      next => cases h
  | reload index delivered =>
      simp only [Agent.step] at h
      split at h
      next hphase =>
        exact Or.inr (Or.inr (Or.inr (Or.inr (Or.inr (Or.inr (Or.inl
          ⟨index, delivered, rfl, hphase, (Option.some.inj h).symm⟩))))))
      next => cases h
  | reply index =>
      simp only [Agent.step] at h
      split at h
      next err hphase =>
        exact Or.inr (Or.inr (Or.inr (Or.inr (Or.inr (Or.inr (Or.inr
          ⟨index, err, rfl, hphase, (Option.some.inj h).symm⟩))))))
      next => cases h

/-- A step that is not an arrival moves one call to another phase and leaves the
configuration and the other calls alone. -/
theorem step_not_arrive {agent next : Agent N} {step : Step N}
    (h : agent.step step = some next) (hstep : ∀ call, step ≠ .arrive call) :
    ∃ index old phase file, agent.phase? index = some old ∧
      next = { agent.setPhase index phase with file := file } := by
  obtain ⟨call, rfl, _⟩ | ⟨index, cfg, _, hphase, rfl⟩ |
    ⟨index, count, cfg, position, _, hphase, _, rfl⟩ | ⟨index, cfg, _, hphase, rfl⟩ |
    ⟨index, cfg, _, hphase, rfl⟩ | ⟨index, _, ⟨cfg, hphase | ⟨position, hphase⟩⟩, rfl⟩ |
    ⟨index, delivered, _, hphase, rfl⟩ | ⟨index, err, _, hphase, rfl⟩ := step_cases h
  · exact absurd rfl (hstep call)
  all_goals exact ⟨_, _, _, _, hphase, rfl⟩

/-! ## Configuration and calls -/

theorem step_calls {agent next : Agent N} {step : Step N} (h : agent.step step = some next) :
    next.calls = agent.calls ++ arrivals [step] ∧
      next.conf = execAll agent.conf (arrivals [step]) := by
  cases step with
  | arrive call =>
      have hnext := (Option.some.inj h).symm
      subst hnext
      exact ⟨by simp [calls, arrivals], rfl⟩
  | _ =>
      obtain ⟨index, old, phase, file, _, rfl⟩ := step_not_arrive h (fun _ => by simp)
      refine ⟨?_, rfl⟩
      change (agent.setPhase index phase).calls = agent.calls ++ []
      rw [setPhase_calls, List.append_nil]

/-- The configuration is the result of the calls that have arrived, in their
order of arrival, whatever else has been going on. -/
theorem run_calls {agent final : Agent N} {steps : List (Step N)}
    (h : agent.run steps = some final) :
    final.calls = agent.calls ++ arrivals steps ∧
      final.conf = execAll agent.conf (arrivals steps) := by
  induction steps generalizing agent with
  | nil =>
      have hfinal := Option.some.inj h
      subst hfinal
      exact ⟨(List.append_nil _).symm, rfl⟩
  | cons step rest ih =>
      obtain ⟨next, hnext, hrest⟩ := runSteps_cons_eq_some _ h
      obtain ⟨hcalls, hconf⟩ := step_calls hnext
      obtain ⟨hcallsRest, hconfRest⟩ := ih hrest
      rw [arrivals_cons]
      constructor
      · rw [hcallsRest, hcalls, List.append_assoc]
      · rw [hconfRest, hconf, execAll_append]

/-! ## Pending writes -/

/-- `conf` with the first calls of the agent carried out: what `current_conf` was
right after the arrival of the call with the given index. -/
def confAt (conf : Conf N) (agent : Agent N) (index : Nat) : Conf N :=
  execAll conf (agent.calls.take (index + 1))

/-- Every pending write carries the rendering of the configuration its own call
left behind, and no writer is past the end of its text. -/
structure Consistent (conf : Conf N) (agent : Agent N) : Prop where
  conf_eq : agent.conf = execAll conf agent.calls
  pending : ∀ index phase cfg, agent.phase? index = some phase → phase.pending? = some cfg →
    render (confAt conf agent index) = .ok cfg
  position : ∀ index cfg position, agent.phase? index = some (.opened cfg position) →
    position ≤ cfg.length

theorem consistent_idle (conf : Conf N) (file : Text) : Consistent conf (idle conf file) where
  conf_eq := rfl
  pending := by
    intro index phase cfg hphase
    simp [idle, phase?] at hphase
  position := by
    intro index cfg position hphase
    simp [idle, phase?] at hphase

theorem confAt_of_calls {conf : Conf N} {left right : Agent N} {index : Nat}
    {more : List (Call N)} (hcalls : right.calls = left.calls ++ more)
    (hindex : index < left.calls.length) :
    confAt conf right index = confAt conf left index := by
  unfold confAt
  rw [hcalls, List.take_append_of_le_length (by omega)]

/-- Moving a call to a phase whose pending text is the one it already had. -/
theorem Consistent.setPhase {conf : Conf N} {agent : Agent N} (hagent : Consistent conf agent)
    {index : Nat} {old phase : Phase} (file : Text) (hold : agent.phase? index = some old)
    (hpending : ∀ cfg, phase.pending? = some cfg → old.pending? = some cfg)
    (hposition : ∀ cfg position, phase = .opened cfg position → position ≤ cfg.length) :
    Consistent conf { agent.setPhase index phase with file := file } := by
  have hcalls : ({ agent.setPhase index phase with file := file } : Agent N).calls =
      agent.calls ++ [] := by
    rw [List.append_nil]
    exact agent.setPhase_calls index phase
  have hphase : ∀ other, ({ agent.setPhase index phase with file := file } : Agent N).phase? other =
      (agent.setPhase index phase).phase? other := fun _ => rfl
  refine ⟨?_, ?_, ?_⟩
  · rw [hcalls, List.append_nil]
    exact hagent.conf_eq
  · intro other otherPhase cfg hother hcfg
    rw [hphase] at hother
    by_cases heq : other = index
    · subst heq
      rw [phase?_setPhase_self agent phase hold, Option.some.injEq] at hother
      subst hother
      rw [confAt_of_calls hcalls (phase?_lt hold)]
      exact hagent.pending other old cfg hold (hpending cfg hcfg)
    · rw [phase?_setPhase_of_ne agent phase heq] at hother
      rw [confAt_of_calls hcalls (phase?_lt hother)]
      exact hagent.pending other otherPhase cfg hother hcfg
  · intro other cfg position hother
    rw [hphase] at hother
    by_cases heq : other = index
    · subst heq
      rw [phase?_setPhase_self agent phase hold, Option.some.injEq] at hother
      exact hposition cfg position hother
    · rw [phase?_setPhase_of_ne agent phase heq] at hother
      exact hagent.position other cfg position hother

theorem arrivalPhase_pending {conf : Conf N} {outcome : Outcome} {cfg : Text}
    (h : (arrivalPhase conf outcome).pending? = some cfg) : render conf = .ok cfg := by
  cases outcome with
  | updating =>
      unfold arrivalPhase at h
      cases hrender : render conf with
      | error fault => simp [hrender, Phase.pending?] at h
      | ok text => simpa [hrender, Phase.pending?] using h
  | _ => cases h

theorem arrivalPhase_ne_opened (conf : Conf N) (outcome : Outcome) (cfg : Text) (position : Nat) :
    arrivalPhase conf outcome ≠ .opened cfg position := by
  cases outcome with
  | updating =>
      unfold arrivalPhase
      cases render conf <;> simp
  | _ => simp [arrivalPhase]

theorem Consistent.arrive {conf : Conf N} {agent next : Agent N}
    (hagent : Consistent conf agent) {call : Call N}
    (hnext : agent.step (.arrive call) = some next) : Consistent conf next := by
  obtain ⟨hcalls, hconf⟩ := step_calls hnext
  have harrived : next.conf = execAll conf next.calls := by
    rw [hconf, hcalls, execAll_append, hagent.conf_eq]
  have hfresh := (Option.some.inj hnext).symm
  have hphase : ∀ index, next.phase? index =
      if index = agent.calls.length then
        some (arrivalPhase (call.exec agent.conf).1 (call.exec agent.conf).2)
      else agent.phase? index := by
    intro index
    rw [hfresh]
    exact phase?_arrive agent ⟨call, _⟩ _ index
  refine ⟨harrived, ?_, ?_⟩
  · intro index phase cfg hindex hcfg
    rw [hphase] at hindex
    split at hindex
    next heq =>
      rw [Option.some.injEq] at hindex
      subst hindex
      -- the new call is the last one, so its snapshot is the configuration now in memory
      have hlength : next.calls.length = index + 1 := by
        rw [hcalls, List.length_append, heq]
        rfl
      have hall : confAt conf next index = next.conf := by
        rw [confAt, ← hlength, List.take_length, harrived]
      rw [hall, hfresh]
      exact arrivalPhase_pending hcfg
    next =>
      rw [confAt_of_calls hcalls (phase?_lt hindex)]
      exact hagent.pending index phase cfg hindex hcfg
  · intro index cfg position hindex
    rw [hphase] at hindex
    split at hindex
    next =>
      exact absurd (Option.some.inj hindex) (arrivalPhase_ne_opened _ _ cfg position)
    next => exact hagent.position index cfg position hindex

theorem Consistent.step {conf : Conf N} {agent next : Agent N} {step : Step N}
    (hagent : Consistent conf agent) (h : agent.step step = some next) :
    Consistent conf next := by
  obtain ⟨call, rfl, _⟩ | ⟨index, cfg, _, hphase, rfl⟩ |
    ⟨index, count, cfg, position, _, hphase, hbound, rfl⟩ | ⟨index, cfg, _, hphase, rfl⟩ |
    ⟨index, cfg, _, hphase, rfl⟩ | ⟨index, _, ⟨cfg, hphase | ⟨position, hphase⟩⟩, rfl⟩ |
    ⟨index, delivered, _, hphase, rfl⟩ | ⟨index, err, _, hphase, rfl⟩ := step_cases h
  · exact hagent.arrive h
  · refine hagent.setPhase [] hphase (fun _ hcfg => hcfg) ?_
    rintro _ _ hopened
    cases hopened
    exact Nat.zero_le _
  · refine hagent.setPhase _ hphase (fun _ hcfg => hcfg) ?_
    rintro _ _ hopened
    cases hopened
    exact hbound
  · exact hagent.setPhase agent.file hphase (by rintro _ ⟨⟩) (by rintro _ _ ⟨⟩)
  · exact hagent.setPhase cfg hphase (by rintro _ ⟨⟩) (by rintro _ _ ⟨⟩)
  · exact hagent.setPhase agent.file hphase (by rintro _ ⟨⟩) (by rintro _ _ ⟨⟩)
  · exact hagent.setPhase agent.file hphase (by rintro _ ⟨⟩) (by rintro _ _ ⟨⟩)
  · refine hagent.setPhase agent.file hphase ?_ ?_
    · cases delivered <;> rintro _ ⟨⟩
    · cases delivered <;> rintro _ _ ⟨⟩
  · exact hagent.setPhase agent.file hphase (by rintro _ ⟨⟩) (by rintro _ _ ⟨⟩)

theorem Consistent.run {conf : Conf N} {agent final : Agent N} {steps : List (Step N)}
    (hagent : Consistent conf agent) (h : agent.run steps = some final) :
    Consistent conf final :=
  runSteps_invariant Agent.step (fun _ => True) (Consistent conf)
    (fun _ _ _ _ hstate hnext => hstate.step hnext) (fun _ _ => trivial) hagent h

end Agent

end NginxInterface
