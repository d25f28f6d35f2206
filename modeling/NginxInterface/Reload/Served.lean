import NginxInterface.Cycle.Planned
import NginxInterface.Reload.Service

/-! # From the calls to the workers

The calls keep to a plan, so nginx takes every complete file; no change is lost on the way from
the file to the workers. So in the end the workers serve the configuration as the call that wrote
the file last has left it.
-/

namespace NginxInterface.Reload

open Js ConfFile NginxInterface.Cycle Foundation

variable {N : Type} [Number N]

/-- The steps of the master do not matter to the agent. -/
theorem run_agent {build : Build} {service final : Service N} {steps : List (ServiceStep N)}
    (h : service.run build steps = some final) :
    service.agent.run (agentSteps steps) = some final.agent := by
  induction steps generalizing service with
  | nil => exact congrArg (Option.map Service.agent) h
  | cons step rest ih =>
      obtain ⟨next, hnext, hrest⟩ := runSteps_cons_eq_some _ h
      have htail := ih hrest
      cases step with
      | agent step =>
          obtain ⟨agent, hagent, rfl⟩ := Option.map_eq_some_iff.mp hnext
          exact Option.bind_eq_some_iff.mpr ⟨agent, hagent, htail⟩
      | master step =>
          obtain ⟨master, -, rfl⟩ := Option.map_eq_some_iff.mp hnext
          exact htail

theorem keeps_confAt {plan : Plan N} {conf : Conf N} (h : plan.Keeps conf) {agent : Agent N}
    (hcalls : ∀ call ∈ agent.calls, plan.Allows call) (index : Nat) :
    plan.Keeps (Agent.confAt conf agent index) :=
  h.execAll fun call hcall => hcalls call (List.mem_of_mem_take hcall)

/-- If all calls keep to the plan and no other call has touched the file since the last call has
opened it, then in the end the workers serve the configuration that this call has left. -/
theorem last_written_is_served [Number.Decimal N] {build : Build} (hbuild : build.Usual)
    {plan : Plan N} (hplan : plan.Sound) (debug : Bool) {file : Text} {cycle : Loaded}
    {forked : List Bool} {steps : List (ServiceStep N)} {final : Service N}
    (hrun : (Service.start (Conf.initial (.bool debug) plan.statusPort) file cycle forked).run
      build steps = some final)
    (hcalls : ∀ call ∈ arrivals (agentSteps steps), plan.Allows call)
    {before during : List (Step N)} {writer : Nat}
    (hsteps : agentSteps steps = before ++ .openFile writer :: during)
    (halone : ∀ step ∈ during, step.touches? = none ∨ step.touches? = some writer)
    (hanswer : final.agent.phase? writer = some (.replied none))
    (hopens : ∀ step ∈ steps, step.opens) (hsettled : final.Settled) :
    let conf := Agent.confAt (Conf.initial (.bool debug) plan.statusPort) final.agent writer
    ∀ process ∈ final.master.processes, process.accepting = true →
      process.cycle = conf.loaded ∧
        ∀ appName entry, conf.appEntry .stream appName = some entry →
          ∀ addr, process.cycle.streamRoute ⟨addr, portOf (plan.port .stream appName)⟩ =
            some (appReady .stream (appName, entry)) := by
  intro conf process hprocess haccepting
  have hagent := run_agent hrun
  have hwritten : render conf = .ok final.agent.file := by
    rw [hsteps] at hagent
    exact Agent.file_of_last_opened hagent halone (Or.inr (Or.inr hanswer))
  have hkeeps : plan.Keeps conf := by
    refine keeps_confAt (Plan.Keeps.initial plan debug) (fun call hcall => hcalls call ?_) writer
    rw [(Agent.run_calls hagent).1] at hcall
    exact hcall
  have hload : loadFile build final.agent.file = .ok conf.loaded := by
    obtain ⟨text, hrender, haccepts⟩ := accepts_loadFile hbuild (hkeeps.plain hplan)
    cases hrender.symm.trans hwritten
    exact haccepts.eq_ok (hkeeps.valid hplan)
  have htouched : ∃ step ∈ agentSteps steps, step.touches?.isSome = true :=
    ⟨.openFile writer, by rw [hsteps]; simp, rfl⟩
  have hcurrent := workersCurrent_run (Master.start_workersCurrent cycle forked) hrun
  have hcycle : process.cycle = conf.loaded := by
    rw [hsettled.master.accepting hcurrent hprocess haccepting]
    exact (inStep_run htouched hopens hrun).cycle_eq hsettled hload
  refine ⟨hcycle, fun appName entry hentry addr => ?_⟩
  rw [hcycle]
  exact hkeeps.streamRoute hplan hentry addr

/-- One http application. -/
def webPlan : Plan Int where
  apps mode appName := mode = .http ∧ appName = "web"
  port _ _ := 80
  statusPort := .undefined

theorem webPlan_sound : webPlan.Sound where
  statusPort := Or.inl rfl
  name := by
    rintro mode appName ⟨rfl, rfl⟩
    decide
  port := by
    rintro (_ | _) appName ⟨-, rfl⟩
    · exact ⟨by unfold natural; decide, by decide⟩
    · exact ⟨by unfold natural; decide, by decide⟩
  names mode first second hfirst hsecond _ := hfirst.2.trans hsecond.2.symm
  streamPorts first second hfirst hsecond _ := hfirst.2.trans hsecond.2.symm
  separate first second hfirst _ := nomatch hfirst.1
  status appName happ _ := nomatch happ.1

theorem raceSteps_allowed : ∀ call ∈ arrivals (agentSteps raceSteps), webPlan.Allows call := by
  have hadd : webPlan.Allows (.forward "web" 80 8001) :=
    .add _ _ 8001 ⟨rfl, rfl⟩ rfl rfl (by decide) (Or.inr ⟨rfl, rfl⟩)
  have hcalls : arrivals (agentSteps raceSteps) =
      [.forward "web" 80 8001, .deletePortRouting "web" (.num 8001), .forward "web" 80 8001,
        .deletePortRouting "web" (.num 8001)] := rfl
  simp only [hcalls, List.forall_mem_cons]
  exact ⟨hadd, .delete _ _, hadd, .delete _ _, List.forall_mem_nil _⟩

theorem last_written_is_served_race : ∃ final : Service Int,
    (Service.start emptyConf [] {} [true]).run openBuild raceSteps = some final ∧
      ∀ process ∈ final.master.processes, process.accepting = true →
        process.cycle = (Agent.confAt emptyConf final.agent 3).loaded := by
  obtain ⟨final, hfinal, hsettled, -, hanswer⟩ := raceSteps_run
  have hsteps : agentSteps raceSteps =
      [.arrive (.forward "web" 80 8001), .arrive (.deletePortRouting "web" (.num 8001)),
        .writeFile 1, .reload 1 true, .arrive (.forward "web" 80 8001),
        .arrive (.deletePortRouting "web" (.num 8001))] ++ .openFile 3 ::
      [.writeBytes 3 120, .closeFile 3, .reload 3 true, .reply 1, .reply 3] := rfl
  refine ⟨final, hfinal, fun process hprocess haccepting => ?_⟩
  exact (last_written_is_served openBuild_usual webPlan_sound false hfinal raceSteps_allowed
    hsteps (by simp [Step.touches?]) hanswer raceSteps_opens hsettled process hprocess
    haccepting).1

end NginxInterface.Reload
