import NginxInterface.Foundation.FileBytes
import NginxInterface.Foundation.Runs
import NginxInterface.Routing.Operations
import NginxInterface.Template.Render

/-! # The agent and its pending calls

A call runs its synchronous part when it arrives: it changes `current_conf`,
renders it and starts `fs.writeFile` with the text. Everything after that
happens in steps of its own, which interleave freely with those of other calls:
the file is opened and truncated, bytes are written, the file is closed, SIGHUP is
sent, and the callback runs. Any of the steps that involve the operating system
may fail instead.

The system also has a step in which a whole write takes effect at once, for
properties that do not look inside a write.
-/

namespace NginxInterface

open Foundation Js

variable {N : Type} [Number N]

/-- How far a call has come. -/
inductive Phase where
  /-- The call threw; its callback never runs. -/
  | threw (fault : Fault)
  /-- `fs.writeFile` has been called and has not opened the file. -/
  | writing (cfg : Text)
  /-- The file is open and `position` characters of `cfg` are written. -/
  | opened (cfg : Text) (position : Nat)
  /-- The file is closed and the callback of `fs.writeFile` is due. -/
  | closed
  /-- The callback of the call is scheduled. -/
  | replying (err : Option Fault)
  | replied (err : Option Fault)

/-- The text a call has yet to write, or is writing. -/
def Phase.pending? : Phase → Option Text
  | .writing cfg => some cfg
  | .opened cfg _ => some cfg
  | _ => none

/-- The call threw or its callback has run. -/
def Phase.finished : Phase → Bool
  | .threw _ => true
  | .replied _ => true
  | _ => false

structure Task (N : Type) where
  call : Call N
  phase : Phase

/-- The controller, the content of `conf_file`, and all calls in the order in
which they arrived. -/
structure Agent (N : Type) where
  conf : Conf N
  file : Text
  tasks : List (Task N)

inductive Step (N : Type) where
  | arrive (call : Call N)
  | openFile (index : Nat)
  | writeBytes (index count : Nat)
  | closeFile (index : Nat)
  /-- A write that takes effect as a whole. -/
  | writeFile (index : Nat)
  /-- `fs.writeFile` calls back with an error. -/
  | failFile (index : Nat)
  /-- `reload`: the signal is sent, or sending it throws. -/
  | reload (index : Nat) (delivered : Bool)
  /-- The callback of the call runs. -/
  | reply (index : Nat)

namespace Agent

/-- The agent before any call, with a given configuration and file. -/
def idle (conf : Conf N) (file : Text) : Agent N := ⟨conf, file, []⟩

/-- The phase in which the synchronous part of a call leaves it.
`updateConfiguration` renders the new configuration at once. -/
def arrivalPhase (conf : Conf N) : Outcome → Phase
  | .threw fault => .threw fault
  | .calledBack fault => .replied (some fault)
  | .deferred fault => .replying (some fault)
  | .updating =>
      match render conf with
      | .error fault => .replied (some fault)
      | .ok cfg => .writing cfg

def phase? (agent : Agent N) (index : Nat) : Option Phase :=
  agent.tasks[index]?.map Task.phase

def setPhase (agent : Agent N) (index : Nat) (phase : Phase) : Agent N :=
  { agent with tasks := agent.tasks.modify index fun task => { task with phase := phase } }

/-- The byte with which the operating system fills a gap in a file. -/
def nul : Char := '\x00'

def step (agent : Agent N) : Step N → Option (Agent N)
  | .arrive call =>
      let result := call.exec agent.conf
      some { agent with
        conf := result.1
        tasks := agent.tasks ++ [⟨call, arrivalPhase result.1 result.2⟩] }
  | .openFile index =>
      match agent.phase? index with
      | some (.writing cfg) => some { agent.setPhase index (.opened cfg 0) with file := [] }
      | _ => none
  | .writeBytes index count =>
      match agent.phase? index with
      | some (.opened cfg position) =>
          if 0 < count ∧ position + count ≤ cfg.length then
            some { agent.setPhase index (.opened cfg (position + count)) with
              file := writeAt nul agent.file position ((cfg.drop position).take count) }
          else none
      | _ => none
  | .closeFile index =>
      match agent.phase? index with
      | some (.opened cfg position) =>
          if position = cfg.length then some (agent.setPhase index .closed) else none
      | _ => none
  | .writeFile index =>
      match agent.phase? index with
      | some (.writing cfg) => some { agent.setPhase index .closed with file := cfg }
      | _ => none
  | .failFile index =>
      match agent.phase? index with
      | some (.writing _) => some (agent.setPhase index (.replied (some .system)))
      | some (.opened _ _) => some (agent.setPhase index (.replied (some .system)))
      | _ => none
  | .reload index delivered =>
      match agent.phase? index with
      | some .closed =>
          some (agent.setPhase index
            (if delivered then .replying none else .replied (some .system)))
      | _ => none
  | .reply index =>
      match agent.phase? index with
      | some (.replying err) => some (agent.setPhase index (.replied err))
      | _ => none

def run (agent : Agent N) (steps : List (Step N)) : Option (Agent N) :=
  runSteps step agent steps

/-- The calls that have arrived, in order. -/
def calls (agent : Agent N) : List (Call N) := agent.tasks.map Task.call

/-- No step of any call is left. -/
def quiescent (agent : Agent N) : Prop :=
  ∀ task ∈ agent.tasks, task.phase.finished = true

end Agent

/-- The calls that arrive during a list of steps. -/
def arrivals (steps : List (Step N)) : List (Call N) :=
  steps.filterMap fun
    | .arrive call => some call
    | _ => none

end NginxInterface
