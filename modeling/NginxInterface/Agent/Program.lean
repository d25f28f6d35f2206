import NginxInterface.Agent.Bus
import NginxInterface.Agent.Signals

/-! # The program

`index.js` builds a controller that knows neither a pid nor a file, starts discovery and
launches the interface when discovery is ready for the first time. From then on requests
arrive on the bus, and each one that updates the configuration writes it to the path
that `conf_file` holds at that moment.

Which of the candidate paths exist is fixed for a run.
-/

namespace NginxInterface

open Foundation Js

variable {N : Type} [Number N]

/-! ## What discovery has found -/

/-- A lookup of the file finds these paths. -/
def Action.LooksAt (existing : String → Bool) : Action N → Prop
  | .paths _ stat => stat = existing
  | _ => True

/-- The file that is found exists, and no candidate before it does. -/
theorem findNginxConf_first {existing : String → Bool} {conf : String}
    (h : findNginxConf existing = some conf) :
    ∃ earlier others, confPaths = earlier ++ conf :: others ∧ existing conf = true ∧
      ∀ candidate ∈ earlier, existing candidate = false := by
  obtain ⟨hexists, earlier, others, hpaths, hearlier⟩ := List.find?_eq_some_iff_append.mp h
  exact ⟨earlier, others, hpaths, hexists, fun candidate hmem => by
    simpa using hearlier candidate hmem⟩

namespace Controller

/-- The file, once known, is the first candidate that exists, and a tick looks for it
only after it has found a pid. -/
structure Found (existing : String → Bool) (controller : Controller N) : Prop where
  conf : ∀ conf, controller.discovery.confFile = some conf → findNginxConf existing = some conf
  pid : ∀ root, .findingConf root ∈ controller.ticks → controller.discovery.pid ≠ none

/-- Both a pid and a file are known. -/
def Known (controller : Controller N) : Prop :=
  controller.discovery.pid ≠ none ∧ controller.discovery.confFile ≠ none

section Step

variable {existing : String → Bool} {controller next : Controller N} {action : Action N}
  {events : List Event}

theorem Found.step (hfound : controller.Found existing) (haction : action.LooksAt existing)
    (h : controller.step action = some (next, events)) : next.Found existing := by
  obtain ⟨-, hpid, hconf, hticks, -⟩ | ⟨pid, -, hpid, hconf, -⟩ |
    ⟨tick, stat, conf, root, rfl, hstat, hroot, hpid, hconf⟩ := step_cases h
  · exact ⟨hconf ▸ hfound.conf, fun root hroot => hpid ▸ hfound.pid root (hticks root hroot)⟩
  · exact ⟨hconf ▸ hfound.conf, fun _ _ => hpid ▸ Option.some_ne_none pid⟩
  · refine ⟨fun other hother => ?_, fun _ _ => hpid ▸ hfound.pid root hroot⟩
    rw [hconf, Option.some.injEq] at hother
    have hpaths : stat = existing := haction
    rw [← hother, ← hpaths, hstat]

/-- What is known stays known. -/
theorem Known.step (hknown : controller.Known) (h : controller.step action = some (next, events)) :
    next.Known := by
  obtain ⟨hpid, hconf⟩ := hknown
  obtain ⟨-, hsame, hkept, -⟩ | ⟨pid, -, hfound, hkept, -⟩ |
    ⟨tick, stat, conf, root, -, -, -, hsame, hfound⟩ := step_cases h
  · exact ⟨hsame ▸ hpid, hkept ▸ hconf⟩
  · exact ⟨hfound ▸ Option.some_ne_none pid, hkept ▸ hconf⟩
  · exact ⟨hsame ▸ hpid, hfound ▸ Option.some_ne_none conf⟩

/-- Discovery is ready only when both are known. -/
theorem known_of_ready (hfound : controller.Found existing)
    (h : controller.step action = some (next, events)) (hready : events.any Event.isReady = true) :
    next.Known := by
  obtain ⟨-, -, -, -, hquiet⟩ | ⟨pid, -, hpid, hconf, hannounced⟩ |
    ⟨tick, stat, conf, root, -, -, hroot, hpid, hconf⟩ := step_cases h
  · rw [hquiet] at hready
    cases hready
  · rw [hannounced] at hready
    refine ⟨hpid ▸ Option.some_ne_none pid, hconf ▸ ?_⟩
    exact Option.isSome_iff_ne_none.mp hready
  · exact ⟨hpid ▸ hfound.pid root hroot, hconf ▸ Option.some_ne_none conf⟩

end Step

end Controller

/-! ## The program -/

/-- What becomes of a request: its handler throws, or it makes a call. -/
def BusRequest.resolve (request : BusRequest N) (conf : Conf N) : KeyedCall.Resolution N :=
  match request.read with
  | .error _ => .throws
  | .ok call => call.resolve conf

/-- The call reaches `fs.writeFile` when it arrives. -/
def Agent.startsWrite (agent : Agent N) (call : Call N) : Bool :=
  match arrivalPhase (call.exec agent.conf).1 (call.exec agent.conf).2 with
  | .writing _ => true
  | _ => false

structure Program (N : Type) where
  controller : Controller N
  /-- The listener of `once('ready')` is registered. -/
  listening : Bool
  /-- How often `launchInterface` has run. -/
  exposed : Nat
  /-- The path that each `fs.writeFile` was called with. -/
  writes : List (Option String)
  /-- A request has stored its entry outside the tables, where others may find it. -/
  polluted : Bool

inductive ProgramStep (N : Type) where
  | launch
  | processes (tick : Nat) (list : List Process)
  | paths (tick : Nat)
  /-- A request that changes nothing: `getStatus`, `ping`, `getConfiguration` or
  `connector`. -/
  | query
  | request (request : BusRequest N)
  /-- A request for a call that works outside the tables, or any request after one. It may
  leave any agent behind, with or without a write. -/
  | stray (request : BusRequest N) (agent : Agent N) (writes : Bool)
  /-- A later step of a call. -/
  | agent (step : Step N)

namespace Program

/-- `index.js` has run: the first tick is on its way and the listener is registered. -/
def start (file : Text) : Program N where
  controller :=
    { Controller.initial (.initial (.bool false) .undefined) file none none with
      ticks := [.findingPID] }
  listening := true
  exposed := 0
  writes := []
  polluted := false

/-- The listener launches the interface when discovery is ready, and is gone then. -/
def hear (program : Program N) (events : List Event) : Program N :=
  if program.listening && events.any Event.isReady then
    { program with listening := false, exposed := program.exposed + 1 }
  else program

def act (program : Program N) (action : Action N) : Option (Program N) :=
  match program.controller.step action with
  | none => none
  | some (next, events) => some ({ program with controller := next }.hear events)

/-- `fs.writeFile` is called, if the call gets that far. -/
def write (program : Program N) (starts : Bool) : Program N :=
  if starts then
    { program with writes := program.writes ++ [program.controller.discovery.confFile] }
  else program

/-- The model does not follow the look-ups of this request. -/
def strays (program : Program N) (request : BusRequest N) : Bool :=
  program.polluted ||
    match request.resolve program.controller.agent.conf with
    | .throws => false
    | .call _ => false
    | _ => true

def step (existing : String → Bool) (program : Program N) :
    ProgramStep N → Option (Program N)
  | .launch => program.act .launch
  | .processes tick list => program.act (.processes tick list)
  | .paths tick => program.act (.paths tick existing)
  | .query => if program.exposed = 0 then none else some program
  | .request request =>
      if program.exposed = 0 ∨ program.polluted = true then none
      else
        match request.resolve program.controller.agent.conf with
        | .throws => some program
        | .call call =>
            (program.write (program.controller.agent.startsWrite call)).act
              (.agent (.arrive call))
        | _ => none
  | .stray request agent writes =>
      if program.exposed = 0 ∨ program.strays request = false then none
      else
        some ({ program with
          controller := { program.controller with agent := agent }
          polluted := true }.write writes)
  -- calls come from the bus alone
  | .agent (.arrive _) => none
  | .agent step => program.act (.agent step)

def run (existing : String → Bool) (program : Program N) (steps : List (ProgramStep N)) :
    Option (Program N) :=
  runSteps (step existing) program steps

/-! ## What holds throughout a run -/

structure Sound (existing : String → Bool) (program : Program N) : Prop where
  found : program.controller.Found existing
  once : program.exposed = if program.listening then 0 else 1
  known : program.exposed ≠ 0 → program.controller.Known
  writes : ∀ path ∈ program.writes, path ≠ none ∧ path = findNginxConf existing

section Steps

variable {existing : String → Bool} {program next : Program N}

theorem start_sound (existing : String → Bool) (file : Text) :
    (start file : Program N).Sound existing where
  found := by
    refine ⟨nofun, fun root hroot => ?_⟩
    simp [start] at hroot
  once := rfl
  known := fun hexposed => absurd rfl hexposed
  writes := nofun

/-- The listener is told that discovery is ready only when both are known. -/
theorem Sound.act (hsound : program.Sound existing) {action : Action N}
    (haction : action.LooksAt existing) (h : program.act action = some next) :
    next.Sound existing := by
  unfold Program.act at h
  split at h
  next => cases h
  next controller events hstep =>
    cases h
    have hfound := hsound.found.step haction hstep
    unfold hear
    split
    next hheard =>
      simp only [Bool.and_eq_true] at hheard
      obtain ⟨hlistening, hready⟩ := hheard
      have honce := hsound.once
      rw [if_pos hlistening] at honce
      exact ⟨hfound, by simp [honce],
        fun _ => Controller.known_of_ready hsound.found hstep hready, hsound.writes⟩
    next =>
      exact ⟨hfound, hsound.once, fun hexposed => (hsound.known hexposed).step hstep,
        hsound.writes⟩

omit [Number N] in
/-- Once the interface is launched, a write goes to the known file. -/
theorem Sound.write (hsound : program.Sound existing) (hexposed : program.exposed ≠ 0)
    (starts : Bool) : (program.write starts).Sound existing := by
  unfold Program.write
  split
  next =>
    refine ⟨hsound.found, hsound.once, hsound.known, fun path hpath => ?_⟩
    rcases List.mem_append.mp hpath with hold | hnew
    · exact hsound.writes path hold
    · rw [List.mem_singleton.mp hnew]
      have hconf := (hsound.known hexposed).2
      obtain ⟨conf, hsome⟩ := Option.ne_none_iff_exists'.mp hconf
      refine ⟨hconf, ?_⟩
      rw [hsome, hsound.found.conf conf hsome]
  next => exact hsound

/-- A step moves the controller, or changes nothing, or serves a request of the launched
interface, which may write first. -/
theorem step_cases {label : ProgramStep N} (h : program.step existing label = some next) :
    (∃ action, action.LooksAt existing ∧ program.act action = some next) ∨
    next = program ∨
    (program.exposed ≠ 0 ∧ ∃ starts call,
      (program.write starts).act (.agent (.arrive call)) = some next) ∨
    (program.exposed ≠ 0 ∧ ∃ agent starts, next =
      { program with
        controller := { program.controller with agent := agent }
        polluted := true }.write starts) := by
  cases label with
  | launch => exact Or.inl ⟨.launch, trivial, h⟩
  | processes tick list => exact Or.inl ⟨.processes tick list, trivial, h⟩
  | paths tick => exact Or.inl ⟨.paths tick existing, rfl, h⟩
  | query =>
      simp only [Program.step] at h
      split at h <;> cases h
      exact Or.inr (Or.inl rfl)
  | request request =>
      simp only [Program.step] at h
      split at h
      next => cases h
      next hexposed =>
        rw [not_or] at hexposed
        split at h
        next =>
          cases h
          exact Or.inr (Or.inl rfl)
        next call _ => exact Or.inr (Or.inr (Or.inl ⟨hexposed.1, _, call, h⟩))
        next => cases h
  | stray request agent writes =>
      simp only [Program.step] at h
      split at h
      next => cases h
      next hexposed =>
        rw [not_or] at hexposed
        cases h
        exact Or.inr (Or.inr (Or.inr ⟨hexposed.1, agent, writes, rfl⟩))
  | agent move =>
      cases move with
      | arrive call => cases h
      | _ => exact Or.inl ⟨.agent _, trivial, h⟩

theorem Sound.step (hsound : program.Sound existing) {label : ProgramStep N}
    (h : program.step existing label = some next) : next.Sound existing := by
  obtain ⟨action, haction, hact⟩ | rfl | ⟨hexposed, starts, call, hact⟩ |
    ⟨hexposed, agent, starts, rfl⟩ := step_cases h
  · exact hsound.act haction hact
  · exact hsound
  · have hcall : Action.LooksAt existing (.agent (.arrive call)) := trivial
    exact (hsound.write hexposed starts).act hcall hact
  · have hleft : Sound existing
        { program with
          controller := { program.controller with agent := agent }
          polluted := true } :=
      ⟨⟨hsound.found.conf, hsound.found.pid⟩, hsound.once, hsound.known, hsound.writes⟩
    exact hleft.write hexposed starts

theorem Sound.run (hsound : program.Sound existing) {steps : List (ProgramStep N)}
    (h : program.run existing steps = some next) : next.Sound existing :=
  runSteps_invariant (Program.step existing) (fun _ => True) (Sound existing)
    (fun _ _ _ _ hstate hstep => hstate.step hstep) (fun _ _ => trivial) hsound h

/-- The interface is never taken back. -/
theorem act_exposed {action : Action N} (h : program.act action = some next) :
    program.exposed ≤ next.exposed := by
  unfold Program.act at h
  split at h
  next => cases h
  next =>
    cases h
    unfold hear
    split
    · exact Nat.le_succ _
    · exact Nat.le_refl _

omit [Number N] in
theorem write_exposed (program : Program N) (starts : Bool) :
    (program.write starts).exposed = program.exposed := by
  cases starts <;> rfl

theorem step_exposed {label : ProgramStep N} (h : program.step existing label = some next) :
    program.exposed ≤ next.exposed := by
  obtain ⟨action, -, hact⟩ | rfl | ⟨-, starts, call, hact⟩ | ⟨-, agent, starts, rfl⟩ :=
    step_cases h
  · exact act_exposed hact
  · exact Nat.le_refl _
  · have hexposed := act_exposed hact
    rwa [write_exposed] at hexposed
  · rw [write_exposed]

theorem run_exposed {steps : List (ProgramStep N)} (h : program.run existing steps = some next) :
    program.exposed ≤ next.exposed :=
  runSteps_invariant (Program.step existing) (fun _ => True)
    (fun state => program.exposed ≤ state.exposed)
    (fun _ _ _ _ hstate hstep => hstate.trans (step_exposed hstep)) (fun _ _ => trivial)
    (Nat.le_refl _) h

end Steps

/-- The interface is launched at most once, when both a pid and a file are known; both
stay known; and all writes go to one path, a candidate that exists while no candidate
before it does. -/
theorem program_writes_one_file (existing : String → Bool) (file : Text)
    (before after : List (ProgramStep N)) (program later : Program N)
    (hbefore : (start file).run existing before = some program)
    (hafter : program.run existing after = some later) :
    later.exposed ≤ 1 ∧
      (program.exposed ≠ 0 → program.controller.Known ∧ later.controller.Known) ∧
      (later.writes ≠ [] → ∃ earlier conf others, confPaths = earlier ++ conf :: others ∧
        existing conf = true ∧ (∀ candidate ∈ earlier, existing candidate = false) ∧
        ∀ path ∈ later.writes, path = some conf) := by
  have hprogram := (start_sound existing file).run hbefore
  have hlater := hprogram.run hafter
  refine ⟨?_, fun hexposed => ⟨hprogram.known hexposed, hlater.known ?_⟩, fun hwrites => ?_⟩
  · rw [hlater.once]
    split
    · exact Nat.zero_le 1
    · exact Nat.le_refl 1
  · have hkept := run_exposed hafter
    omega
  · obtain ⟨path, hpath⟩ := List.exists_mem_of_ne_nil _ hwrites
    obtain ⟨hknown, hfound⟩ := hlater.writes path hpath
    obtain ⟨conf, rfl⟩ := Option.ne_none_iff_exists'.mp hknown
    obtain ⟨earlier, others, hpaths, hexists, hearlier⟩ := findNginxConf_first hfound.symm
    refine ⟨earlier, conf, others, hpaths, hexists, hearlier, fun other hother => ?_⟩
    rw [(hlater.writes other hother).2, ← hfound]

/-- The payload of a request to route port 80. -/
def webPayload (outPort : Int) : Value Int :=
  .obj [("app_name", .str "web"),
    ("opts", .obj [("in_port", .num 80), ("out_port", .num outPort)])]

/-- The only candidate that exists. -/
def localConf (path : String) : Bool := path == "/usr/local/nginx/conf/nginx.conf"

/-- Two ticks overlap, each finds the file, and a request arrives. -/
def firstSteps : List (ProgramStep Int) :=
  [.launch, .processes 0 [⟨10, 1⟩], .processes 1 [⟨10, 1⟩], .paths 1, .paths 0,
    .request (.addPortRouting (webPayload 8001)), .query]

/-- nginx is gone and back under another pid, and a second request arrives. -/
def laterSteps : List (ProgramStep Int) :=
  [.launch, .processes 2 [], .launch, .processes 3 [⟨20, 1⟩],
    .request (.addPortRouting (webPayload 8002)), .agent (.writeFile 0)]

theorem program_writes_one_file_restart :
    ∃ program later : Program Int, (start []).run localConf firstSteps = some program ∧
      program.run localConf laterSteps = some later ∧
      program.exposed = 1 ∧ later.exposed ≤ 1 ∧ later.controller.Known ∧
      later.writes.length = 2 ∧
      ∀ path ∈ later.writes, path = some "/usr/local/nginx/conf/nginx.conf" := by
  obtain ⟨program, later, hbefore, hafter, hexposed, hwrites⟩ :
      ∃ program later : Program Int, (start []).run localConf firstSteps = some program ∧
        program.run localConf laterSteps = some later ∧ program.exposed = 1 ∧
        later.writes.length = 2 := ⟨_, _, rfl, rfl, rfl, rfl⟩
  obtain ⟨honce, hknown, hpaths⟩ := program_writes_one_file localConf [] firstSteps laterSteps
    program later hbefore hafter
  have hwritten : later.writes ≠ [] := List.ne_nil_of_length_pos (by omega)
  obtain ⟨_, conf, _, _, hexists, _, hsame⟩ := hpaths hwritten
  have hconf : conf = "/usr/local/nginx/conf/nginx.conf" := eq_of_beq hexists
  exact ⟨program, later, hbefore, hafter, hexposed, honce, (hknown (by omega)).2, hwrites,
    hconf ▸ hsame⟩

end Program

end NginxInterface
