import NginxInterface.Agent.Invariants
import NginxInterface.Template.Renderable

/-! # Calls that fail

A call can fail before it reaches `updateConfiguration`, or later, when the
configuration is rendered, written or signalled. The first kind leaves
`current_conf` as it was. The second kind has changed it already, and no step takes
the change back: every later call starts from it and publishes it.

Rendering itself fails only after a call has stored something that the template
cannot print.
-/

namespace NginxInterface

open Foundation Js

variable {N : Type} [Number N]

/-- The error with which a call has failed. -/
def Phase.failure? : Phase → Option Fault
  | .threw fault => some fault
  | .replying err => err
  | .replied err => err
  | _ => none

def Phase.isThrow : Phase → Bool
  | .threw _ => true
  | _ => false

/-- In this step the operating system fails the call: in writing, or in signalling. -/
def Step.failsAt (index : Nat) : Step N → Bool
  | .failFile other => other = index
  | .reload other delivered => other = index && !delivered
  | _ => false

namespace Agent

/-- One step keeps the error of a failed call, and makes another call fail exactly if the
operating system fails it. A call throws at its arrival or never. -/
theorem step_failure {agent next : Agent N} {step : Step N} {index : Nat} {phase : Phase}
    (h : agent.step step = some next) (hphase : agent.phase? index = some phase) :
    ∃ after, next.phase? index = some after ∧ after.isThrow = phase.isThrow ∧
      (after.failure? = phase.failure? ∧ step.failsAt index = false ∨
        phase.failure? = none ∧ after.failure? = some .system ∧ step.failsAt index = true) := by
  -- every step but an arrival moves one call; its failure stays, or the system adds one
  have hmove : ∀ {other : Nat} {old : Phase} (new : Phase), agent.phase? other = some old →
      (∀ stranger, stranger ≠ other → step.failsAt stranger = false) →
      new.isThrow = old.isThrow →
      (new.failure? = old.failure? ∧ step.failsAt other = false ∨
        old.failure? = none ∧ new.failure? = some .system ∧ step.failsAt other = true) →
      ∃ after, (agent.setPhase other new).phase? index = some after ∧
        after.isThrow = phase.isThrow ∧
        (after.failure? = phase.failure? ∧ step.failsAt index = false ∨
          phase.failure? = none ∧ after.failure? = some .system ∧
            step.failsAt index = true) := by
    intro other old new hold hstrangers hthrow hnew
    by_cases heq : index = other
    · subst heq
      rw [hphase, Option.some.injEq] at hold
      subst hold
      exact ⟨new, phase?_setPhase_self agent new hphase, hthrow, hnew⟩
    · exact ⟨phase, by rw [phase?_setPhase_of_ne agent new heq, hphase], rfl,
        Or.inl ⟨rfl, hstrangers index heq⟩⟩
  have hfails : ∀ other stranger : Nat, stranger ≠ other → decide (other = stranger) = false :=
    fun other stranger hne => decide_eq_false (Ne.symm hne)
  obtain ⟨call, rfl, rfl⟩ | ⟨other, cfg, rfl, hother, rfl⟩ |
    ⟨other, count, cfg, position, rfl, hother, _, rfl⟩ | ⟨other, cfg, rfl, hother, rfl⟩ |
    ⟨other, cfg, rfl, hother, rfl⟩ | ⟨other, rfl, ⟨cfg, hother | ⟨position, hother⟩⟩, rfl⟩ |
    ⟨other, delivered, rfl, hother, rfl⟩ | ⟨other, err, rfl, hother, rfl⟩ := step_cases h
  · refine ⟨phase, ?_, rfl, Or.inl ⟨rfl, rfl⟩⟩
    rw [phase?_arrive, if_neg (Nat.ne_of_lt (phase?_lt hphase)), hphase]
  · exact hmove _ hother (fun _ _ => rfl) rfl (Or.inl ⟨rfl, rfl⟩)
  · exact hmove _ hother (fun _ _ => rfl) rfl (Or.inl ⟨rfl, rfl⟩)
  · exact hmove _ hother (fun _ _ => rfl) rfl (Or.inl ⟨rfl, rfl⟩)
  · exact hmove _ hother (fun _ _ => rfl) rfl (Or.inl ⟨rfl, rfl⟩)
  · exact hmove _ hother (hfails other) rfl (Or.inr ⟨rfl, rfl, decide_eq_true rfl⟩)
  · exact hmove _ hother (hfails other) rfl (Or.inr ⟨rfl, rfl, decide_eq_true rfl⟩)
  · cases delivered with
    | true =>
        exact hmove _ hother (fun _ _ => Bool.and_false _) rfl (Or.inl ⟨rfl, Bool.and_false _⟩)
    | false =>
        refine hmove _ hother ?_ rfl (Or.inr ⟨rfl, rfl, ?_⟩)
        · exact fun stranger hne => (Bool.and_true _).trans (hfails other stranger hne)
        · exact (Bool.and_true _).trans (decide_eq_true rfl)
  · exact hmove _ hother (fun _ _ => rfl) rfl (Or.inl ⟨rfl, rfl⟩)

theorem run_failure {agent final : Agent N} {steps : List (Step N)} {index : Nat} {phase : Phase}
    (h : agent.run steps = some final) (hphase : agent.phase? index = some phase) :
    ∃ after, final.phase? index = some after ∧
      (after.failure? = phase.failure? ∨
        phase.failure? = none ∧ after.failure? = some .system) := by
  induction steps generalizing agent phase with
  | nil =>
      have hfinal := Option.some.inj h
      exact ⟨phase, hfinal ▸ hphase, Or.inl rfl⟩
  | cons step rest ih =>
      obtain ⟨next, hnext, hrest⟩ := runSteps_cons_eq_some _ h
      obtain ⟨middle, hmiddle, -, hfirst⟩ := step_failure hnext hphase
      obtain ⟨after, hafter, hlast⟩ := ih hrest hmiddle
      refine ⟨after, hafter, ?_⟩
      rcases hfirst with ⟨hsame, -⟩ | ⟨hnone, hsystem, -⟩
      · rwa [hsame] at hlast
      · rw [hsystem] at hlast
        rcases hlast with hkept | ⟨habsurd, _⟩
        · exact Or.inr ⟨hnone, hkept⟩
        · cases habsurd

/-- The error with which a call fails at its arrival. -/
theorem arrivalPhase_failure {conf : Conf N} {outcome : Outcome} {fault : Fault}
    (h : (arrivalPhase conf outcome).failure? = some fault) :
    outcome ≠ .updating ∨ outcome = .updating ∧ render conf = .error fault := by
  cases outcome with
  | updating =>
      refine Or.inr ⟨rfl, ?_⟩
      unfold arrivalPhase at h
      cases hrender : render conf with
      | error failure =>
          rw [hrender] at h
          exact congrArg Except.error (Option.some.inj h)
      | ok cfg =>
          rw [hrender] at h
          cases h
  | _ => exact Or.inl (by simp)

theorem arrivalPhase_none {conf : Conf N} {outcome : Outcome}
    (h : (arrivalPhase conf outcome).failure? = none) : outcome = .updating := by
  cases outcome with
  | updating => rfl
  | _ => cases h

/-- The task and the configuration that an arrival adds. -/
theorem arrive_phase {agent next : Agent N} {call : Call N}
    (h : agent.step (.arrive call) = some next) :
    next.conf = (call.exec agent.conf).1 ∧ next.phase? agent.calls.length =
      some (arrivalPhase (call.exec agent.conf).1 (call.exec agent.conf).2) := by
  cases h
  exact ⟨rfl, by rw [phase?_arrive, if_pos rfl]⟩

/-- A call that has failed either failed before `updateConfiguration`, and then the
configuration is what the later calls make of the one before it; or it failed in
rendering, writing or signalling, and then the later calls start from the changed
configuration. All ports are assumed to be convertible to text. -/
theorem failed_call_effect (debugMode statusPort : Value N) (file : Text)
    (before after : List (Step N)) (call : Call N) (agent final : Agent N) (phase : Phase)
    (fault : Fault)
    (hbefore : (idle (Conf.initial debugMode statusPort) file).run before = some agent)
    (hafter : agent.run (.arrive call :: after) = some final)
    (hports : ∀ arrived ∈ arrivals before, arrived.PortsPrintable)
    (hcall : call.PortsPrintable)
    (hphase : final.phase? agent.calls.length = some phase)
    (hfailed : phase.failure? = some fault) :
    let result := call.exec agent.conf
    (result.2 ≠ .updating ∧ result.1 = agent.conf ∧
        final.conf = execAll agent.conf (arrivals after)) ∨
      (result.2 = .updating ∧ (render result.1 = .error fault ∨ fault = .system) ∧
        final.conf = execAll result.1 (arrivals after)) := by
  intro result
  obtain ⟨next, hnext, hrest⟩ := runSteps_cons_eq_some _ hafter
  have harrived := arrive_phase hnext
  have hfinal : final.conf = execAll result.1 (arrivals after) := by
    rw [(run_calls hrest).2, harrived.1]
  have hrefused : result.2 ≠ .updating → result.1 = agent.conf := by
    refine Call.exec_refused hcall ?_
    rw [(run_calls hbefore).2]
    exact execAll_portsPrintable hports (Conf.initial_portsPrintable _ _)
  -- a failure is either the one the call arrived with, or the system's during its write
  obtain ⟨last, hlast, horigin⟩ := run_failure hrest harrived.2
  rw [hphase, Option.some.injEq] at hlast
  subst hlast
  rw [hfailed] at horigin
  rcases horigin with hsame | ⟨hnone, hsystem⟩
  · rcases arrivalPhase_failure hsame.symm with hrefusal | ⟨hupdating, hrender⟩
    · refine Or.inl ⟨hrefusal, hrefused hrefusal, ?_⟩
      rw [hfinal, hrefused hrefusal]
    · exact Or.inr ⟨hupdating, Or.inl hrender, hfinal⟩
  · exact Or.inr ⟨arrivalPhase_none hnone, Or.inr (Option.some.inj hsystem), hfinal⟩

/-- The write of the first call fails and its entry stays. -/
theorem failed_call_effect_write :
    ∃ final : Agent Int,
      (idle (.initial .undefined .undefined) []).run
        [.arrive (.forward "web" 80 8001), .failFile 0] = some final ∧
      final.conf = ((Call.forward "web" 80 8001).exec (.initial .undefined .undefined)).1 := by
  refine ⟨_, rfl, ?_⟩
  have heffect := failed_call_effect .undefined .undefined [] [] [.failFile 0]
    (.forward "web" 80 8001) _ _ _ .system rfl rfl (fun _ harrived => nomatch harrived)
    ⟨rfl, rfl⟩ rfl rfl
  rcases heffect with ⟨hrefused, _⟩ | ⟨_, _, hfinal⟩
  · exact absurd rfl hrefused
  · exact hfinal

/-- A call whose callback received an error has left its entry behind, and the
next call, which succeeds, starts from it. -/
theorem failed_write_keeps_entry :
    ∃ failed final : Agent Int,
      (idle (.initial .undefined .undefined) []).run
        [.arrive (.forward "web" 80 8001), .failFile 0] = some failed ∧
      failed.phase? 0 = some (.replied (some .system)) ∧
      (failed.conf.appEntry .http "web").isSome = true ∧
      failed.run [.arrive (.forward "api" 81 9001), .writeFile 1, .reload 1 true, .reply 1] =
        some final ∧
      final.phase? 1 = some (.replied none) ∧
      (final.conf.appEntry .http "web").isSome = true :=
  ⟨_, _, rfl, rfl, rfl, rfl, rfl, rfl⟩

/-! ## Rendering never fails by itself -/

/-- If every call that creates or replaces an entry supplies printable values, and
an array of ports where it replaces them, then the template evaluates on every
configuration reached, and every entry has a list of instances. -/
theorem reachable_conf_renders (debugMode statusPort : Value N) (file : Text)
    (steps : List (Step N)) (final : Agent N)
    (hdebug : debugMode.printable = true) (hstatus : statusPort.printable = true)
    (hrun : (idle (Conf.initial debugMode statusPort) file).run steps = some final)
    (hcalls : RunMeets (fun conf call => call.StoresRenderable conf)
      (Conf.initial debugMode statusPort) (arrivals steps)) :
    (∃ text, render final.conf = .ok text) ∧
      ∀ mode appName entry, final.conf.appEntry mode appName = some entry →
        ∃ items, entry.instances = .list items := by
  have hfinal : final.conf.Renderable := by
    rw [(run_calls hrun).2]
    exact execAll_renderable _ (Conf.initial_renderable hdebug hstatus) hcalls
  refine ⟨hfinal.render_ok, ?_⟩
  intro mode appName entry hentry
  obtain ⟨items, hitems, _⟩ := (hfinal.entries mode appName entry hentry).instances
  exact ⟨items, hitems⟩

def swapSteps : List (Step Int) :=
  [.arrive (.swap "web" .stream 80 (.arr [.num 8001])), .arrive (.forward "api" 81 9001)]

theorem reachable_conf_renders_swapSteps :
    ∃ final : Agent Int, (idle (.initial .undefined .undefined) []).run swapSteps = some final ∧
      ∃ text, render final.conf = .ok text := by
  refine ⟨_, rfl,
    (reachable_conf_renders .undefined .undefined [] swapSteps _ rfl rfl rfl ?_).1⟩
  refine ⟨⟨rfl, rfl, [.num 8001], rfl, ?_⟩, fun _ => ⟨rfl, rfl⟩, trivial⟩
  intro port hport
  rw [List.mem_singleton.mp hport]
  rfl

/-- An update without `out_ports` is accepted, and from then on the calls for other
applications fail too. -/
theorem swap_without_ports_blocks :
    ∃ final : Agent Int,
      (idle (.initial .undefined .undefined) []).run
        [.arrive (.swap "web" .stream 80 .undefined), .arrive (.forward "api" 81 9001)] =
          some final ∧
      render final.conf = .error .typeError ∧
      final.phase? 1 = some (.replied (some .typeError)) :=
  ⟨_, rfl, rfl, rfl⟩

end Agent

end NginxInterface
