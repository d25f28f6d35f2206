import NginxInterface.Agent.Discovery
import NginxInterface.Agent.System

/-! # Discovery and reloads together

The ticks of discovery and the steps of the routing calls interleave freely, and a
tick may be launched before the one before it is complete. A reload reads the pid when
it runs, not when its call arrived. The pid is written by every process lookup that
finds a root process and by nothing else; a lookup that finds none leaves it.
-/

namespace NginxInterface

open Foundation Js

variable {N : Type} [Number N]

/-- How far a tick has come, with the pid it found. -/
inductive TickPhase where
  | findingPID
  | findingConf (root : Option Nat)
  | completed (root : Option Nat)

/-- The controller with its ticks in the order in which they were launched. -/
structure Controller (N : Type) where
  agent : Agent N
  discovery : Discovery
  ticks : List TickPhase

inductive Action (N : Type) where
  /-- The interval fires. -/
  | launch
  /-- The process lookup of a tick ends. -/
  | processes (tick : Nat) (list : List Process)
  /-- The lookup of the configuration file of a tick ends. -/
  | paths (tick : Nat) (stat : String → Bool)
  | agent (step : Step N)

inductive Event where
  | emitted (emission : Emission)
  /-- A tick is complete; it found this pid. -/
  | completed (root : Option Nat)
  | sighup (pid : Nat)

namespace Controller

def initial (conf : Conf N) (file : Text) (confFile : Option String) (pid : Option Nat) :
    Controller N where
  agent := .idle conf file
  discovery := .initial confFile pid
  ticks := []

/-- Store what a callback of a tick left behind. -/
def setTick (controller : Controller N) (tick : Nat) (phase : TickPhase)
    (discovery : Discovery) : Controller N :=
  { controller with discovery := discovery, ticks := controller.ticks.set tick phase }

def step (controller : Controller N) : Action N → Option (Controller N × List Event)
  | .launch => some ({ controller with ticks := controller.ticks ++ [.findingPID] }, [])
  | .processes tick list =>
      match controller.ticks[tick]? with
      | some .findingPID =>
          let root := findNginxPID list
          match controller.discovery.pidCallback root with
          | (discovery, some emission) =>
              some (controller.setTick tick (.completed root) discovery,
                [.emitted emission, .completed root])
          | (discovery, none) =>
              some (controller.setTick tick (.findingConf root) discovery, [])
      | _ => none
  | .paths tick stat =>
      match controller.ticks[tick]? with
      | some (.findingConf root) =>
          let result := controller.discovery.confCallback (findNginxConf stat)
          some (controller.setTick tick (.completed root) result.1,
            [.emitted result.2, .completed root])
      | _ => none
  | .agent step =>
      match controller.agent.step step with
      | none => none
      | some agent =>
          match step with
          | .reload _ true =>
              -- without a pid `process.kill` throws
              match controller.discovery.pid with
              | some pid => some ({ controller with agent := agent }, [.sighup pid])
              | none => none
          | _ => some ({ controller with agent := agent }, [])

def run (controller : Controller N) (actions : List (Action N)) :
    List Event × Option (Controller N) :=
  transduce step controller actions

/-- The actions of a tick that is launched now and runs to its end. -/
def tickActions (controller : Controller N) (tick : Tick) : List (Action N) :=
  let lookup : List (Action N) := [.launch, .processes controller.ticks.length tick.processes]
  if tick.root.isSome ∧ controller.discovery.confFile = none then
    lookup ++ [.paths controller.ticks.length tick.stat]
  else lookup

/-- A tick that nothing interleaves with has the effect of `findNginxMeta`. -/
theorem run_tickActions (controller : Controller N) (tick : Tick) :
    ∃ events ticks, controller.run (controller.tickActions tick) =
      (events, some { controller with
        discovery := controller.discovery.findNginxMeta tick, ticks := ticks }) := by
  cases hroot : tick.root with
  | none =>
      have hlookup : findNginxPID tick.processes = none := hroot
      refine ⟨[.emitted (.error notRunning), .completed none],
        (controller.ticks ++ [TickPhase.findingPID]).set controller.ticks.length
          (.completed none), ?_⟩
      rw [Discovery.findNginxMeta_of_no_root hroot]
      simp [tickActions, hroot, run, transduce, step, hlookup, setTick, Discovery.pidCallback]
  | some pid =>
      have hlookup : findNginxPID tick.processes = some pid := hroot
      cases hknown : controller.discovery.confFile with
      | some conf =>
          refine ⟨[.emitted (.ready conf (some pid)), .completed (some pid)],
            (controller.ticks ++ [TickPhase.findingPID]).set controller.ticks.length
              (.completed (some pid)), ?_⟩
          rw [Discovery.findNginxMeta_of_known hroot hknown]
          simp [tickActions, hknown, run, transduce, step, hlookup, setTick,
            Discovery.pidCallback]
      | none =>
          have hmeta : controller.discovery.findNginxMeta tick =
              ({ controller.discovery with pid := some pid }.confCallback tick.conf).1 := by
            simp only [Discovery.findNginxMeta, hroot, Discovery.pidCallback, hknown]
          refine ⟨[.emitted ({ controller.discovery with pid := some pid }.confCallback
              tick.conf).2, .completed (some pid)],
            ((controller.ticks ++ [TickPhase.findingPID]).set controller.ticks.length
              (.findingConf (some pid))).set controller.ticks.length (.completed (some pid)), ?_⟩
          rw [hmeta]
          simp [tickActions, hknown, hroot, run, transduce, step, hlookup, setTick,
            Discovery.pidCallback, Tick.conf]

end Controller

/-- The pid that an action finds. -/
def Action.root? : Action N → Option Nat
  | .processes _ list => findNginxPID list
  | _ => none

/-- The pid found by the last process lookup that found one. -/
def lastRoot (actions : List (Action N)) : Option Nat := (actions.filterMap Action.root?).getLast?

omit [Number N] in
theorem lastRoot_cons (action : Action N) (rest : List (Action N)) :
    lastRoot (action :: rest) = (lastRoot rest).or action.root? := by
  unfold lastRoot
  cases hroot : action.root? with
  | none => rw [List.filterMap_cons_none hroot, Option.or_none]
  | some pid =>
      rw [List.filterMap_cons_some hroot]
      cases rest.filterMap Action.root? with
      | nil => rfl
      | cons head tail => simp [List.getLast?_cons]

def Event.isReady : Event → Bool
  | .emitted (.ready _ _) => true
  | _ => false

namespace Controller

/-- A step finds a pid, or it finds the file for a tick that looks for it, or it leaves
both as they are. Only a step that finds something announces that discovery is ready. -/
theorem step_cases {controller next : Controller N} {action : Action N} {events : List Event}
    (h : controller.step action = some (next, events)) :
    (action.root? = none ∧ next.discovery.pid = controller.discovery.pid ∧
      next.discovery.confFile = controller.discovery.confFile ∧
      (∀ root, .findingConf root ∈ next.ticks → .findingConf root ∈ controller.ticks) ∧
      events.any Event.isReady = false) ∨
    (∃ pid, action.root? = some pid ∧ next.discovery.pid = some pid ∧
      next.discovery.confFile = controller.discovery.confFile ∧
      events.any Event.isReady = controller.discovery.confFile.isSome) ∨
    (∃ tick stat conf root, action = .paths tick stat ∧ findNginxConf stat = some conf ∧
      .findingConf root ∈ controller.ticks ∧ next.discovery.pid = controller.discovery.pid ∧
      next.discovery.confFile = some conf) := by
  have hset {tick : Nat} {root other : Option Nat}
      (hmem : .findingConf root ∈ controller.ticks.set tick (.completed other)) :
      .findingConf root ∈ controller.ticks := by
    rcases List.mem_or_eq_of_mem_set hmem with hmem | heq
    · exact hmem
    · cases heq
  cases action with
  | launch =>
      cases h
      refine Or.inl ⟨rfl, rfl, rfl, fun root hroot => ?_, rfl⟩
      simpa using hroot
  | processes tick list =>
      simp only [step] at h
      split at h
      next =>
        cases hroot : findNginxPID list with
        | none =>
            rw [hroot] at h
            cases h
            exact Or.inl ⟨hroot, rfl, rfl, fun root hmem => hset hmem, rfl⟩
        | some pid =>
            rw [hroot] at h
            refine Or.inr (Or.inl ⟨pid, hroot, ?_⟩)
            cases hconf : controller.discovery.confFile with
            | none =>
                simp only [Discovery.pidCallback, hconf] at h
                cases h
                exact ⟨rfl, rfl, rfl⟩
            | some conf =>
                simp only [Discovery.pidCallback, hconf] at h
                cases h
                exact ⟨rfl, rfl, rfl⟩
      next => cases h
  | paths tick stat =>
      simp only [step] at h
      split at h
      next root htick =>
        cases hconf : findNginxConf stat with
        | none =>
            rw [hconf] at h
            cases h
            exact Or.inl ⟨rfl, rfl, rfl, fun root hmem => hset hmem, rfl⟩
        | some conf =>
            rw [hconf] at h
            cases h
            exact Or.inr (Or.inr ⟨tick, stat, conf, root, rfl, hconf,
              List.mem_of_getElem? htick, rfl, rfl⟩)
      next => cases h
  | agent step =>
      simp only [Controller.step] at h
      repeat' split at h
      all_goals
        first
        | cases h; exact Or.inl ⟨rfl, rfl, rfl, fun root hmem => hmem, rfl⟩
        | cases h

/-- The pid changes with a process lookup that finds one and with nothing else. -/
theorem step_pid {controller next : Controller N} {action : Action N} {events : List Event}
    (h : controller.step action = some (next, events)) :
    next.discovery.pid = action.root?.or controller.discovery.pid := by
  obtain ⟨hroot, hpid, -⟩ | ⟨pid, hroot, hpid, -⟩ | ⟨tick, stat, conf, root, rfl, -, -, hpid, -⟩ :=
    step_cases h
  · rw [hpid, hroot, Option.none_or]
  · rw [hpid, hroot, Option.some_or]
  · exact hpid

theorem run_pid {controller final : Controller N} {actions : List (Action N)}
    (h : (controller.run actions).2 = some final) :
    final.discovery.pid = (lastRoot actions).or controller.discovery.pid := by
  induction actions generalizing controller with
  | nil =>
      cases h
      rfl
  | cons action rest ih =>
      obtain ⟨next, events, hnext, hrest⟩ := transduce_cons_eq_some _ h
      rw [ih hrest, step_pid hnext, lastRoot_cons, Option.or_assoc]

/-- Every SIGHUP goes to the pid found by the most recent process lookup that found a
root process. Before the first such lookup it goes to the pid given to the constructor. -/
theorem sighup_to_last_root (conf : Conf N) (file : Text) (confFile : Option String)
    (pid : Option Nat) (before : List (Action N)) (controller next : Controller N)
    (index : Nat) (events : List Event)
    (hrun : ((initial conf file confFile pid).run before).2 = some controller)
    (hreload : controller.step (.agent (.reload index true)) = some (next, events)) :
    ∃ target, events = [.sighup target] ∧ (lastRoot before).or pid = some target := by
  have hpid : controller.discovery.pid = (lastRoot before).or pid := run_pid hrun
  simp only [step] at hreload
  split at hreload
  next => cases hreload
  next =>
    split at hreload
    next target htarget =>
      cases hreload
      exact ⟨target, rfl, hpid ▸ htarget⟩
    next => cases hreload

/-- Two ticks, under two pids, and the call of one application up to its reload. -/
def restartActions : List (Action Int) :=
  [.launch, .processes 0 [⟨10, 1⟩, ⟨11, 10⟩], .paths 0 (fun _ => true),
    .agent (.arrive (.forward "web" 80 8001)), .launch, .processes 1 [⟨20, 1⟩],
    .agent (.writeFile 0)]

theorem sighup_to_last_root_restart :
    ∃ (controller next : Controller Int) (events : List Event),
      ((initial emptyConf [] none none).run restartActions).2 = some controller ∧
      controller.step (.agent (.reload 0 true)) = some (next, events) ∧
      events = [.sighup 20] := by
  obtain ⟨controller, next, events, hrun, hreload⟩ :
      ∃ (controller next : Controller Int) (events : List Event),
        ((initial emptyConf [] none none).run restartActions).2 = some controller ∧
        controller.step (.agent (.reload 0 true)) = some (next, events) := ⟨_, _, _, rfl, rfl⟩
  obtain ⟨target, hsent, htarget⟩ := sighup_to_last_root emptyConf [] none none restartActions
    controller next 0 events hrun hreload
  cases htarget
  exact ⟨controller, next, events, hrun, hreload, hsent⟩

/-- The pid found by the most recently completed tick. -/
def latestTick (events : List Event) : Option (Option Nat) :=
  (events.filterMap fun
    | .completed root => some root
    | _ => none).getLast?

/-- Every SIGHUP after a completed tick goes to the pid that the most recently
completed one found. -/
def SignalsLatest (events : List Event) : Prop :=
  ∀ before pid after, events = before ++ .sighup pid :: after →
    ∀ root, latestTick before = some root → root = some pid

/-- nginx is found, a call arrives, nginx is gone by the next tick, and the call
reloads. -/
def outageActions : List (Action Int) :=
  [.launch, .processes 0 [⟨10, 1⟩], .paths 0 (fun _ => true),
    .agent (.arrive (.forward "web" 80 8001)), .agent (.writeFile 0), .launch, .processes 1 [],
    .agent (.reload 0 true)]

/-- The signal goes to the process of before the outage. -/
theorem sighup_after_outage : ∃ (controller : Controller Int) (events : List Event),
    (initial emptyConf [] none none).run outageActions = (events, some controller) ∧
      ¬SignalsLatest events := by
  refine ⟨_, _, rfl, ?_⟩
  intro hlatest
  have hroot := hlatest
    [.emitted (.ready "/etc/nginx/nginx.conf" (some 10)), .completed (some 10),
      .emitted (.error notRunning), .completed none] 10 [] rfl none rfl
  cases hroot

end Controller

end NginxInterface
