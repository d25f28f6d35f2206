import NginxInterface.Agent.Disk
import NginxInterface.Reload.Workers

/-! # The agent and nginx

The agent and the master process of nginx share the configuration file and SIGHUP, and nothing
else orders their steps. The master may read the file while a call writes it, and signals may
merge. Still no change is lost: every call that has touched the file signals after that, so the
master reads the file again after it was last touched.
-/

namespace NginxInterface

/-- The step sends SIGHUP to the master. -/
def Step.signals {N : Type} : Step N → Bool
  | .reload _ delivered => delivered
  | _ => false

deriving instance DecidableEq for Phase

/-- The call has touched the file and has not signalled, or it failed. -/
def Phase.untold : Phase → Bool
  | .opened _ _ => true
  | .closed => true
  | .replied (some .system) => true
  | _ => false

namespace Reload

open Js NginxInterface.Cycle Foundation

variable {N : Type} [Number N]

structure Service (N : Type) where
  agent : Agent N
  master : Master

inductive ServiceStep (N : Type) where
  | agent (step : Step N)
  | master (step : MasterStep)

def ServiceStep.master? : ServiceStep N → Option MasterStep
  | .agent _ => none
  | .master step => some step

namespace Service

/-- nginx runs, and no call has been made. -/
def start (conf : Conf N) (file : Text) (cycle : Loaded) (forked : List Bool) : Service N where
  agent := .idle conf file
  master := .start cycle forked

def step (build : Build) (service : Service N) : ServiceStep N → Option (Service N)
  | .agent step =>
      (service.agent.step step).map fun agent =>
        ⟨agent, if step.signals then service.master.signal else service.master⟩
  | .master step =>
      (service.master.step build service.agent.file step).map fun master =>
        ⟨service.agent, master⟩

def run (build : Build) (service : Service N) (steps : List (ServiceStep N)) :
    Option (Service N) :=
  runSteps (step build) service steps

/-- The guard holds of every step that the master takes in the run. -/
def Always (build : Build) (guard : Master → MasterStep → Prop) (service : Service N)
    (steps : List (ServiceStep N)) : Prop :=
  Along (step build) (fun service step => ∀ own ∈ step.master?, guard service.master own)
    service steps

instance (build : Build) (guard : Master → MasterStep → Prop)
    [∀ master step, Decidable (guard master step)] (service : Service N)
    (steps : List (ServiceStep N)) : Decidable (service.Always build guard steps) :=
  Along.decide _ _ service steps

end Service

/-- The steps of the agent. -/
def agentSteps (steps : List (ServiceStep N)) : List (Step N) :=
  steps.filterMap fun
    | .agent step => some step
    | .master _ => none

/-- The operating system lets the master open its sockets. -/
def MasterStep.opens : MasterStep → Prop
  | .finish opened _ => opened = true
  | _ => True

def ServiceStep.opens : ServiceStep N → Prop
  | .agent _ => True
  | .master step => step.opens

/-! ## Calls that nginx does not know of -/

def Untold (agent : Agent N) : Prop :=
  ∃ index phase, agent.phase? index = some phase ∧ phase.untold = true

omit [Number N] in
theorem Untold.setPhase {agent : Agent N} (file : Text) {index : Nat} {old phase : Phase}
    (hold : agent.phase? index = some old) (hphase : phase.untold = true) :
    Untold { agent.setPhase index phase with file := file } :=
  ⟨index, phase, Agent.phase?_setPhase_self agent phase hold, hphase⟩

/-- A step of the agent leaves the file alone, or there is a signal to come. -/
theorem untold_step {agent next : Agent N} {step : Step N} (h : agent.step step = some next) :
    Untold next ∨ step.signals = true ∨ (next.file = agent.file ∧ ¬Untold agent) := by
  obtain ⟨call, rfl, rfl⟩ | ⟨index, cfg, rfl, hphase, rfl⟩ |
    ⟨index, count, cfg, position, rfl, hphase, -, rfl⟩ | ⟨index, cfg, rfl, hphase, rfl⟩ |
    ⟨index, cfg, rfl, hphase, rfl⟩ | ⟨index, rfl, ⟨cfg, hphase⟩, rfl⟩ |
    ⟨index, delivered, rfl, hphase, rfl⟩ | ⟨index, err, rfl, hphase, rfl⟩ := Agent.step_cases h
  · by_cases huntold : Untold agent
    · obtain ⟨other, phase, hother, hphase⟩ := huntold
      refine Or.inl ⟨other, phase, ?_, hphase⟩
      rw [Agent.phase?_arrive, if_neg (Nat.ne_of_lt (Agent.phase?_lt hother))]
      exact hother
    · exact Or.inr (Or.inr ⟨rfl, huntold⟩)
  · exact Or.inl (Untold.setPhase _ hphase rfl)
  · exact Or.inl (Untold.setPhase _ hphase rfl)
  · exact Or.inl (Untold.setPhase agent.file hphase rfl)
  · exact Or.inl (Untold.setPhase _ hphase rfl)
  · rcases hphase with hphase | ⟨position, hphase⟩
    · exact Or.inl (Untold.setPhase agent.file hphase rfl)
    · exact Or.inl (Untold.setPhase agent.file hphase rfl)
  · cases delivered with
    | true => exact Or.inr (Or.inl rfl)
    | false => exact Or.inl (Untold.setPhase agent.file hphase rfl)
  · by_cases huntold : Untold agent
    · obtain ⟨other, phase, hother, huntold⟩ := huntold
      refine Or.inl ⟨other, phase, ?_, huntold⟩
      rw [Agent.phase?_setPhase_of_ne, hother]
      rintro rfl
      cases hother.symm.trans hphase
      cases huntold
    · exact Or.inr (Or.inr ⟨rfl, huntold⟩)

theorem untold_touch {agent next : Agent N} {step : Step N} {writer : Nat}
    (htouch : step.touches? = some writer) (h : agent.step step = some next) : Untold next := by
  obtain ⟨call, rfl, -⟩ | ⟨index, cfg, rfl, hphase, rfl⟩ |
    ⟨index, count, cfg, position, rfl, hphase, -, rfl⟩ | ⟨index, cfg, rfl, -, -⟩ |
    ⟨index, cfg, rfl, hphase, rfl⟩ | ⟨index, rfl, -, -⟩ | ⟨index, delivered, rfl, -, -⟩ |
    ⟨index, err, rfl, -, -⟩ := Agent.step_cases h
  · cases htouch
  · exact Untold.setPhase _ hphase rfl
  · exact Untold.setPhase _ hphase rfl
  · cases htouch
  · exact Untold.setPhase _ hphase rfl
  · cases htouch
  · cases htouch
  · cases htouch

/-! ## The file that nginx knows -/

/-- What the master has read is the beginning of the file, or it has loaded the file if that is
possible. -/
def Knows (build : Build) (file : Text) (master : Master) : Prop :=
  match master.activity with
  | .reading size text => size = file.length ∧ text = file.take text.length
  | _ => ∀ loaded, loadFile build file = .ok loaded → master.cycle = loaded

/-- Either nginx knows the file, or it is told to read it again. -/
def InStep (build : Build) (service : Service N) : Prop :=
  Untold service.agent ∨ service.master.pending = true ∨
    Knows build service.agent.file service.master

theorem Knows.step {build : Build} {file : Text} {master next : Master} {step : MasterStep}
    (h : Knows build file master) (hopens : step.opens)
    (hstep : master.step build file step = some next) : Knows build file next := by
  unfold Knows at *
  cases Master.moves_of_step hstep with
  | wake hactivity hpending => exact ⟨rfl, rfl⟩
  | read size count text hactivity hbound hbytes =>
      simp only [hactivity] at h
      refine ⟨h.1, ?_⟩
      rw [List.length_append, hbytes, List.take_add, ← h.2]
  | shortRead size count text hactivity hbound hbytes =>
      simp only [hactivity] at h
      -- the file is as long as it was when it was opened
      rw [List.length_take, List.length_drop] at hbytes
      omega
  | load forked text loaded hactivity hload =>
      simp only [hactivity] at h
      have htext : text = file := by rw [h.2, h.1, List.take_length]
      intro other hother
      rw [← htext, hload] at hother
      exact Except.ok.inj hother
  | keep opened forked text hactivity hkept =>
      simp only [hactivity] at h
      have htext : text = file := by rw [h.2, h.1, List.take_length]
      intro loaded hloaded
      rw [← htext] at hloaded
      rcases hkept with hclosed | hrefused
      · exact absurd (hclosed.symm.trans hopens) Bool.false_ne_true
      · exact absurd hloaded (hrefused loaded)
  | signalWorkers hactivity => simpa [hactivity] using h
  | quit slot process hslot hexiting => exact h
  | exit slot fatal process hslot => exact h
  | respawn slot process hactivity => simpa [hactivity] using h
  | lose slot process hactivity => simpa [hactivity] using h
  | free slot forked process hactivity => simpa [hactivity] using h

theorem pending_step {build : Build} {file : Text} {master next : Master} {step : MasterStep}
    (h : master.pending = true) (hstep : master.step build file step = some next) :
    next.pending = true ∨ Knows build file next := by
  cases Master.moves_of_step hstep with
  | wake => exact Or.inr ⟨rfl, rfl⟩
  | _ => exact Or.inl h

theorem InStep.step {build : Build} {service next : Service N} {step : ServiceStep N}
    (h : InStep build service) (hopens : step.opens)
    (hstep : service.step build step = some next) : InStep build next := by
  unfold InStep at *
  cases step with
  | agent step =>
      obtain ⟨agent, hagent, rfl⟩ := Option.map_eq_some_iff.mp hstep
      rcases untold_step hagent with huntold | hsignals | ⟨hfile, htold⟩
      · exact Or.inl huntold
      · exact Or.inr (Or.inl (by rw [hsignals]; rfl))
      · rcases h with huntold | hpending | hknows
        · exact absurd huntold htold
        · right; left
          split
          · rfl
          · exact hpending
        · right; right
          rw [hfile]
          split
          · exact hknows
          · exact hknows
  | master step =>
      obtain ⟨master, hmaster, rfl⟩ := Option.map_eq_some_iff.mp hstep
      rcases h with huntold | hpending | hknows
      · exact Or.inl huntold
      · exact Or.inr (pending_step hpending hmaster)
      · exact Or.inr (Or.inr (hknows.step hopens hmaster))

/-- From the first time that the file is touched, nginx is never without either the file or a
signal to come. -/
theorem inStep_run {build : Build} {service final : Service N} {steps : List (ServiceStep N)}
    (htouched : ∃ step ∈ agentSteps steps, step.touches?.isSome = true)
    (hopens : ∀ step ∈ steps, step.opens)
    (hrun : service.run build steps = some final) : InStep build final := by
  obtain ⟨touch, htouch, hsome⟩ := htouched
  obtain ⟨writer, hwriter⟩ := Option.isSome_iff_exists.mp hsome
  obtain ⟨step, hstep, heq⟩ := List.mem_filterMap.mp htouch
  cases step with
  | master step => cases heq
  | agent step =>
      cases heq
      obtain ⟨before, after, rfl⟩ := List.append_of_mem hstep
      obtain ⟨ready, -, hrest⟩ := runSteps_append_eq_some _ hrun
      obtain ⟨next, hnext, hafter⟩ := runSteps_cons_eq_some _ hrest
      obtain ⟨agent, hagent, rfl⟩ := Option.map_eq_some_iff.mp hnext
      refine runSteps_invariant (Service.step build) ServiceStep.opens (InStep build)
        (fun _ _ _ hopen hin hstep => hin.step hopen hstep) (fun other hother => ?_)
        (Or.inl (untold_touch hwriter hagent)) hafter
      exact hopens other (List.mem_append_right _ (List.mem_cons_of_mem _ hother))

/-- What the steps of the master keep under the guard, and a signal too, holds after every run
along which the guard holds. -/
theorem master_run {build : Build} {guard : Master → MasterStep → Prop}
    {invariant : Master → Prop} (hsignal : ∀ master, invariant master → invariant master.signal)
    (hstep : ∀ file master step next, guard master step → invariant master →
      master.step build file step = some next → invariant next)
    {service final : Service N} {steps : List (ServiceStep N)} (h : invariant service.master)
    (hguard : service.Always build guard steps)
    (hrun : service.run build steps = some final) : invariant final.master := by
  refine runSteps_invariant_along (Service.step build) _
    (fun service => invariant service.master) ?_ hguard h hrun
  intro service step next hown hservice hnext
  cases step with
  | agent step =>
      obtain ⟨agent, -, rfl⟩ := Option.map_eq_some_iff.mp hnext
      dsimp only
      split
      · exact hsignal _ hservice
      · exact hservice
  | master step =>
      obtain ⟨master, hmaster, rfl⟩ := Option.map_eq_some_iff.mp hnext
      exact hstep _ _ _ _ (hown step rfl) hservice hmaster

theorem always_of_forall {build : Build} {allowed : MasterStep → Prop}
    {steps : List (ServiceStep N)} (h : ∀ step, .master step ∈ steps → allowed step)
    (service : Service N) : service.Always build (fun _ => allowed) steps := by
  refine along_of_forall _ (fun step hstep own hown => h own ?_) service
  cases step with
  | agent step => cases hown
  | master step =>
      cases hown
      exact hstep

theorem Service.Always.and {build : Build} {first second : Master → MasterStep → Prop}
    {service : Service N} {steps : List (ServiceStep N)}
    (hfirst : service.Always build first steps) (hsecond : service.Always build second steps) :
    service.Always build (fun master step => first master step ∧ second master step) steps :=
  Along.combine (fun _ _ hone hother own hown => ⟨hone own hown, hother own hown⟩) hfirst hsecond

theorem workersCurrent_run {build : Build} {service final : Service N}
    {steps : List (ServiceStep N)} (h : service.master.WorkersCurrent)
    (hrun : service.run build steps = some final) : final.master.WorkersCurrent :=
  master_run (fun _ hmaster => hmaster) (fun _ _ _ _ _ hmaster hstep => hmaster.step hstep) h
    (always_of_forall (fun _ _ => trivial) service) hrun

/-- No call is on the way from the file to its signal, none has failed, and the master has
nothing left to do. -/
structure Service.Settled (service : Service N) : Prop where
  told : ∀ task ∈ service.agent.tasks, task.phase.untold = false
  master : service.master.Settled

instance (service : Service N) : Decidable service.Settled :=
  decidable_of_iff ((∀ task ∈ service.agent.tasks, task.phase.untold = false) ∧
      service.master.Settled)
    ⟨fun h => ⟨h.1, h.2⟩, fun h => ⟨h.told, h.master⟩⟩

omit [Number N] in
theorem Service.Settled.not_untold {service : Service N} (h : service.Settled) :
    ¬Untold service.agent := by
  rintro ⟨index, phase, hphase, huntold⟩
  obtain ⟨task, htask, rfl⟩ := Option.map_eq_some_iff.mp hphase
  exact absurd huntold (ne_true_of_eq_false (h.told task (List.mem_of_getElem? htask)))

omit [Number N] in
theorem InStep.cycle_eq {build : Build} {service : Service N} (h : InStep build service)
    (hsettled : service.Settled) {loaded : Loaded}
    (hload : loadFile build service.agent.file = .ok loaded) : service.master.cycle = loaded := by
  rcases h with huntold | hpending | hknows
  · exact absurd huntold hsettled.not_untold
  · exact absurd (hsettled.master.pending.symm.trans hpending) Bool.false_ne_true
  · simp only [Knows, hsettled.master.activity] at hknows
    exact hknows loaded hload

/-- However the steps of the calls and of nginx interleave, in the end the workers that accept
connections have loaded the file as it is, unless nginx refuses it. -/
theorem reloads_catch_up {build : Build} {conf : Conf N} {file : Text} {cycle : Loaded}
    {forked : List Bool} {steps : List (ServiceStep N)} {final : Service N}
    (hrun : (Service.start conf file cycle forked).run build steps = some final)
    (htouched : ∃ step ∈ agentSteps steps, step.touches?.isSome = true)
    (hopens : ∀ step ∈ steps, step.opens) (hsettled : final.Settled) {loaded : Loaded}
    (hload : loadFile build final.agent.file = .ok loaded) :
    final.master.cycle = loaded ∧
      ∀ process ∈ final.master.processes, process.accepting = true → process.cycle = loaded := by
  have hcycle := (inStep_run htouched hopens hrun).cycle_eq hsettled hload
  refine ⟨hcycle, fun process hprocess haccepting => ?_⟩
  have hcurrent := workersCurrent_run (Master.start_workersCurrent cycle forked) hrun
  rw [hsettled.master.accepting hcurrent hprocess haccepting, hcycle]

/-- The last call truncates the file while nginx reads it for an earlier one. -/
def raceSteps : List (ServiceStep Int) :=
  [.agent (.arrive (.forward "web" 80 8001)),
    .agent (.arrive (.deletePortRouting "web" (.num 8001))), .agent (.writeFile 1),
    .agent (.reload 1 true), .master .wake, .agent (.arrive (.forward "web" 80 8001)),
    .agent (.arrive (.deletePortRouting "web" (.num 8001))), .agent (.openFile 3),
    .master (.read 120), .agent (.writeBytes 3 120), .agent (.closeFile 3),
    .agent (.reload 3 true), .master .wake, .master (.read 70), .agent (.reply 1),
    .agent (.reply 3), .master (.read 50), .master (.finish true [true]), .master .signalWorkers,
    .master (.quit 0)]

theorem raceSteps_run : ∃ final : Service Int,
    (Service.start emptyConf [] {} [true]).run openBuild raceSteps = some final ∧ final.Settled ∧
      (∃ loaded, loadFile openBuild final.agent.file = .ok loaded) ∧
        final.agent.phase? 3 = some (.replied none) := by
  have hrun : ((Service.start emptyConf [] {} [true]).run openBuild raceSteps).map (fun final =>
      decide final.Settled && (loadFile openBuild final.agent.file).isOk &&
        decide (final.agent.phase? 3 = some (.replied none))) = some true := by
    decide +kernel
  obtain ⟨final, hfinal, hend⟩ := Option.map_eq_some_iff.mp hrun
  rw [Bool.and_eq_true, Bool.and_eq_true] at hend
  obtain ⟨⟨hsettled, hok⟩, hphase⟩ := hend
  refine ⟨final, hfinal, of_decide_eq_true hsettled, ?_, of_decide_eq_true hphase⟩
  cases hload : loadFile openBuild final.agent.file with
  | error error =>
      rw [hload] at hok
      cases hok
  | ok loaded => exact ⟨loaded, rfl⟩

theorem raceSteps_opens : ∀ step ∈ raceSteps, step.opens := by
  simp [raceSteps, ServiceStep.opens, MasterStep.opens]

theorem reloads_catch_up_race : ∃ (final : Service Int) (loaded : Loaded),
    (Service.start emptyConf [] {} [true]).run openBuild raceSteps = some final ∧
      loadFile openBuild final.agent.file = .ok loaded ∧ final.master.cycle = loaded := by
  obtain ⟨final, hfinal, hsettled, ⟨loaded, hload⟩, -⟩ := raceSteps_run
  exact ⟨final, loaded, hfinal, hload, (reloads_catch_up hfinal
    ⟨.writeFile 1, by simp [agentSteps, raceSteps], rfl⟩ raceSteps_opens hsettled hload).1⟩

/-- Whatever is written to the file and whenever nginx is told to read it: if a worker can be
started for every configuration that is accepted, then some worker is always kept until a fatal
error, and one accepts connections as long as they do not all end at once. All workers run a
configuration that nginx has accepted as a whole. -/
theorem never_down {build : Build} {conf : Conf N} {file : Text} {cycle : Loaded}
    {forked : List Bool} (hforked : true ∈ forked) {steps : List (ServiceStep N)}
    {final : Service N}
    (hrun : (Service.start conf file cycle forked).run build steps = some final)
    (hstaffs : (Service.start conf file cycle forked).Always build (Master.Staffs build) steps) :
    ((∀ slot, .master (.exit slot true) ∉ steps) →
      ∃ process ∈ final.master.processes, process.exiting = false ∧ process.respawn = true) ∧
    ((Service.start conf file cycle forked).Always build Master.Spares steps →
      ∃ process ∈ final.master.processes, process.exiting = false ∧ process.accepting = true) ∧
    ∀ process ∈ final.master.processes,
      process.cycle = cycle ∨ ∃ text, loadFile build text = .ok process.cycle := by
  refine ⟨fun hfatal => ?_, fun hspares => ?_, ?_⟩
  · have hnone : (Service.start conf file cycle forked).Always build
        (fun _ step => ∀ slot, step ≠ .exit slot true) steps := by
      refine always_of_forall ?_ _
      rintro step hstep slot rfl
      exact hfatal slot hstep
    have hkept : final.master.Kept :=
      master_run (fun _ hmaster => hmaster)
        (fun _ _ _ _ hguard hmaster => hmaster.step hguard.1 hguard.2)
        (Master.start_kept cycle hforked) (hstaffs.and hnone) hrun
    obtain ⟨process, hprocess, hstays, hrespawn⟩ := hkept
    exact ⟨process, hprocess, hstays.1, hrespawn⟩
  · have hserving : final.master.Serving :=
      master_run (fun _ hmaster => hmaster)
        (fun _ _ _ _ hguard hmaster => hmaster.step hguard.1 hguard.2)
        (Master.start_serving cycle hforked) (hstaffs.and hspares) hrun
    obtain ⟨process, hprocess, hstays, haccepting⟩ := hserving
    exact ⟨process, hprocess, hstays.1, haccepting⟩
  · have hvetted : final.master.Vetted build cycle :=
      master_run (fun _ hmaster => ⟨hmaster.cycle, hmaster.processes⟩)
        (fun _ _ _ _ _ hmaster hstep => hmaster.step hstep)
        (Master.start_vetted build cycle forked) (always_of_forall (fun _ _ => trivial) _) hrun
    exact hvetted.processes

/-- One of two workers ends and cannot be started again until a reload, for which only one of two
forks succeeds. -/
def crashSteps : List (ServiceStep Int) :=
  [.master (.exit 0 false), .master (.reap 0 false), .agent (.arrive (.forward "web" 80 8001)),
    .agent (.arrive (.deletePortRouting "web" (.num 8001))), .agent (.writeFile 1),
    .agent (.reload 1 true), .master .wake, .master (.read 120),
    .master (.finish true [false, true]), .master .signalWorkers, .master (.quit 1),
    .master (.exit 1 false), .master (.reap 1 true), .master (.reap 0 true)]

theorem never_down_crash : ∃ final : Service Int,
    (Service.start emptyConf [] {} [true, true]).run openBuild crashSteps = some final ∧
      (∃ process ∈ final.master.processes, process.exiting = false ∧ process.respawn = true) ∧
      ∃ process ∈ final.master.processes, process.exiting = false ∧
        process.accepting = true := by
  have hrun : ((Service.start emptyConf [] {} [true, true]).run openBuild
      crashSteps).isSome = true := by decide +kernel
  have hstaffs : (Service.start emptyConf [] {} [true, true]).Always openBuild
      (Master.Staffs openBuild) crashSteps := by decide +kernel
  have hspares : (Service.start emptyConf [] {} [true, true]).Always openBuild
      Master.Spares crashSteps := by decide +kernel
  obtain ⟨final, hfinal⟩ := Option.isSome_iff_exists.mp hrun
  obtain ⟨hkept, hserving, -⟩ := never_down List.mem_cons_self hfinal hstaffs
  exact ⟨final, hfinal, hkept (by simp [crashSteps]), hserving hspares⟩

/-- A configuration for which no worker can be started, since the forks fail or all entries of the
table are in use, still replaces the old one: no worker is left that accepts connections and
stays. -/
theorem unstaffed_reload_stops {build : Build} {conf : Conf N} {file : Text} {cycle : Loaded}
    {forked : List Bool} {steps : List (ServiceStep N)} {service final : Service N}
    (hrun : (Service.start conf file cycle forked).run build steps = some service)
    {attempts : List Bool}
    (hnone : true ∉ attempts ∨ maxProcesses ≤ service.master.processes.length)
    (hreload : service.run build
      [.master (.finish true attempts), .master .signalWorkers] = some final) :
    ∀ process ∈ final.master.processes, process.accepting = true → process.exiting = true := by
  have hcurrent := workersCurrent_run (Master.start_workersCurrent cycle forked) hrun
  obtain ⟨middle, hfinish, hrest⟩ := runSteps_cons_eq_some _ hreload
  obtain ⟨last, hsignal, hdone⟩ := runSteps_cons_eq_some _ hrest
  obtain ⟨loaded, hloaded, rfl⟩ := Option.map_eq_some_iff.mp hfinish
  obtain ⟨next, hnext, rfl⟩ := Option.map_eq_some_iff.mp hsignal
  cases hdone
  exact Master.stopped_of_unstaffed hcurrent hnone hloaded hnext

theorem unstaffed_reload_stops_fork : ∃ service final : Service Int,
    (Service.start emptyConf [] {} [true]).run openBuild (raceSteps.take 5 ++
        [.master (.read 120)]) = some service ∧
      service.run openBuild [.master (.finish true [false]), .master .signalWorkers] =
        some final ∧
      final.master.processes.length = 1 ∧
      ∀ process ∈ final.master.processes, process.accepting = true → process.exiting = true := by
  have hrun : ((Service.start emptyConf [] {} [true]).run openBuild (raceSteps.take 5 ++
      [.master (.read 120)])).isSome = true := by decide +kernel
  have hend : (((Service.start emptyConf [] {} [true]).run openBuild (raceSteps.take 5 ++
      [.master (.read 120)])).bind fun service => service.run openBuild
        [.master (.finish true [false]), .master .signalWorkers]).map
      (fun final => final.master.processes.length) = some 1 := by decide +kernel
  obtain ⟨service, hservice⟩ := Option.isSome_iff_exists.mp hrun
  obtain ⟨final, hreload, hlength⟩ := Option.map_eq_some_iff.mp hend
  rw [hservice, Option.bind_some] at hreload
  exact ⟨service, final, hservice, hreload, hlength,
    unstaffed_reload_stops hservice (Or.inl (by decide)) hreload⟩

end Reload

end NginxInterface
