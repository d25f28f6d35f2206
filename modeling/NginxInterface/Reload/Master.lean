import NginxInterface.Cycle.Load
import NginxInterface.Foundation.Runs

/-! # The master process

The master of nginx waits for signals (`src/os/unix/ngx_process_cycle.c`). Signals are blocked
while it works, and one that comes meanwhile stays pending; several of them count as one. On
SIGHUP it reads the configuration file into a new cycle, which takes several reads during which
the file may change. If there is a new cycle, workers are started for it, and the workers that
were there before are told to shut down, whether or not new ones could be started. Otherwise
everything stays as it is. On SIGCHLD it starts a worker again that has ended without being told
to, unless that worker has ended with a fatal error.
-/

namespace NginxInterface.Reload

open Js NginxInterface.Cycle Foundation

/-- What has become of the worker that the master has started. -/
inductive WorkerState where
  /-- It runs, with its listening sockets open. -/
  | accepting
  /-- It runs, and has closed its listening sockets. -/
  | closing
  /-- It has ended, and the master has not noticed yet. -/
  | ended
  /-- It has ended, and the master could not start another one: the entry is still marked
  `exited`, and its channel is closed. -/
  | lost
  deriving DecidableEq

/-- An entry of `ngx_processes` that is in use, with the cycle that the worker was forked with. -/
structure Process where
  cycle : Loaded
  justSpawn : Bool
  respawn : Bool := true
  exiting : Bool := false
  state : WorkerState := .accepting

namespace Process

def accepting (process : Process) : Bool := process.state = .accepting

def running (process : Process) : Bool :=
  process.state = .accepting || process.state = .closing

/-- `ngx_signal_worker_processes` with `NGX_SHUTDOWN_SIGNAL`, for one process -/
def shutdown (process : Process) : Process :=
  if process.justSpawn then { process with justSpawn := false }
  -- neither the channel nor `kill` reaches the worker, so that the entry is kept for `ngx_reap`
  else if process.state = .lost then process
  -- a worker that has just ended is a child still, and the master holds its channel open
  else { process with exiting := true }

end Process

/-- `NGX_MAX_PROCESSES` -/
def maxProcesses : Nat := 1024

/-- `ngx_spawn_process` with `NGX_PROCESS_RESPAWN` or `NGX_PROCESS_JUST_RESPAWN`. The operating
system may refuse the channel or the fork. -/
def spawnProcess (cycle : Loaded) (justSpawn : Bool) (processes : List Process) (forked : Bool) :
    List Process :=
  if processes.length < maxProcesses ∧ forked = true then
    processes ++ [{ cycle := cycle, justSpawn := justSpawn }]
  else processes

/-- `ngx_start_worker_processes`, which does not look at what `ngx_spawn_process` returns. -/
def startWorkerProcesses (cycle : Loaded) (justSpawn : Bool) (processes : List Process)
    (forked : List Bool) : List Process :=
  forked.foldl (spawnProcess cycle justSpawn) processes

/-- What the master does between two signals. -/
inductive Activity where
  /-- `sigsuspend` -/
  | waiting
  /-- `ngx_conf_parse`, with the size that the file had when it was opened -/
  | reading (size : Nat) (text : Text)
  /-- The workers of the new cycle were started, and the others have not been told to shut
  down. -/
  | started
  deriving DecidableEq

structure Master where
  pending : Bool := false
  activity : Activity := .waiting
  cycle : Loaded
  processes : List Process

inductive MasterStep where
  /-- `sigsuspend` returns, and `ngx_reconfigure` is handled. -/
  | wake
  | read (count : Nat)
  /-- The end of `ngx_init_cycle`. The sockets may not be opened for reasons of the operating
  system; there is an attempt to fork for every worker of the new configuration. -/
  | finish (opened : Bool) (forked : List Bool)
  | signalWorkers
  /-- A worker handles `NGX_CMD_QUIT`. -/
  | quit (slot : Nat)
  /-- A worker ends, with exit code 2 if it is fatal. -/
  | exit (slot : Nat) (fatal : Bool)
  /-- `ngx_reap_children`, for one process -/
  | reap (slot : Nat) (forked : Bool)

namespace Master

/-- `ngx_master_process_cycle` starts the workers of the first cycle. -/
def start (cycle : Loaded) (forked : List Bool) : Master where
  cycle := cycle
  processes := startWorkerProcesses cycle false [] forked

def signal (master : Master) : Master := { master with pending := true }

/-- The entry of a worker that has ended is used again, or it becomes free. -/
def reapProcess (master : Master) (slot : Nat) (process : Process) (forked : Bool) : Master :=
  if process.respawn = true ∧ process.exiting = false then
    if forked then
      -- an entry that is used again keeps its flags
      { master with
        processes := master.processes.set slot
          { process with cycle := master.cycle, state := .accepting } }
    else { master with processes := master.processes.set slot { process with state := .lost } }
  else { master with processes := master.processes.eraseIdx slot }

/-- The file is read where the last read ended. A file that has become shorter is an error, and
so is one that cannot be loaded. Workers go on while the master works, but it hears of their end
only when it waits. -/
def step (build : Build) (file : Text) (master : Master) : MasterStep → Option Master
  | .wake =>
      match master.activity, master.pending with
      | .waiting, true =>
          some { master with pending := false, activity := .reading file.length [] }
      | _, _ => none
  | .read count =>
      match master.activity with
      | .reading size text =>
          if 0 < count ∧ text.length + count ≤ size then
            let bytes := (file.drop text.length).take count
            if bytes.length = count then
              some { master with activity := .reading size (text ++ bytes) }
            else some { master with activity := .waiting }
          else none
      | _ => none
  | .finish opened forked =>
      match master.activity with
      | .reading size text =>
          if text.length = size then
            match loadFile build text, opened with
            | .ok loaded, true =>
                some { master with
                  activity := .started
                  cycle := loaded
                  processes := startWorkerProcesses loaded true master.processes forked }
            | _, _ => some { master with activity := .waiting }
          else none
      | _ => none
  | .signalWorkers =>
      match master.activity with
      | .started =>
          some { master with
            activity := .waiting
            processes := master.processes.map Process.shutdown }
      | _ => none
  | .quit slot =>
      match master.processes[slot]? with
      | some process =>
          if process.exiting = true ∧ process.state = .accepting then
            some { master with
              processes := master.processes.set slot { process with state := .closing } }
          else none
      | none => none
  | .exit slot fatal =>
      match master.processes[slot]? with
      | some process =>
          if process.running then
            -- `ngx_process_get_status` sees the exit code when it waits for the child
            some { master with
              processes := master.processes.set slot
                { process with state := .ended, respawn := process.respawn && !fatal } }
          else none
      | none => none
  | .reap slot forked =>
      match master.activity, master.processes[slot]? with
      | .waiting, some process =>
          if process.running then none else some (master.reapProcess slot process forked)
      | _, _ => none

/-- No signal is left, and the workers that were told to shut down have stopped accepting. -/
structure Settled (master : Master) : Prop where
  pending : master.pending = false
  activity : master.activity = .waiting
  exiting : ∀ process ∈ master.processes, process.exiting = true → process.accepting = false

instance (master : Master) : Decidable master.Settled :=
  decidable_of_iff (master.pending = false ∧ master.activity = .waiting ∧
      ∀ process ∈ master.processes, process.exiting = true → process.accepting = false)
    ⟨fun h => ⟨h.1, h.2.1, h.2.2⟩, fun h => ⟨h.pending, h.activity, h.exiting⟩⟩

end Master

/-! ## What a step does -/

/-- The steps that are enabled, with the state that they lead to. -/
inductive Master.Moves (build : Build) (file : Text) (master : Master) :
    MasterStep → Master → Prop
  | wake (hactivity : master.activity = .waiting) (hpending : master.pending = true) :
      Moves build file master .wake
        { master with pending := false, activity := .reading file.length [] }
  | read (size count : Nat) (text : Text) (hactivity : master.activity = .reading size text)
      (hbound : text.length + count ≤ size)
      (hbytes : ((file.drop text.length).take count).length = count) :
      Moves build file master (.read count)
        { master with activity := .reading size (text ++ (file.drop text.length).take count) }
  | shortRead (size count : Nat) (text : Text) (hactivity : master.activity = .reading size text)
      (hbound : text.length + count ≤ size)
      (hbytes : ((file.drop text.length).take count).length ≠ count) :
      Moves build file master (.read count) { master with activity := .waiting }
  | load (forked : List Bool) (text : Text) (loaded : Loaded)
      (hactivity : master.activity = .reading text.length text)
      (hload : loadFile build text = .ok loaded) :
      Moves build file master (.finish true forked)
        { master with
          activity := .started
          cycle := loaded
          processes := startWorkerProcesses loaded true master.processes forked }
  | keep (opened : Bool) (forked : List Bool) (text : Text)
      (hactivity : master.activity = .reading text.length text)
      (hkept : opened = false ∨ ∀ loaded, loadFile build text ≠ .ok loaded) :
      Moves build file master (.finish opened forked) { master with activity := .waiting }
  | signalWorkers (hactivity : master.activity = .started) :
      Moves build file master .signalWorkers
        { master with activity := .waiting, processes := master.processes.map Process.shutdown }
  | quit (slot : Nat) (process : Process) (hslot : master.processes[slot]? = some process)
      (hexiting : process.exiting = true) :
      Moves build file master (.quit slot)
        { master with processes := master.processes.set slot { process with state := .closing } }
  | exit (slot : Nat) (fatal : Bool) (process : Process)
      (hslot : master.processes[slot]? = some process) (hrunning : process.running = true) :
      Moves build file master (.exit slot fatal)
        { master with
          processes := master.processes.set slot
            { process with state := .ended, respawn := process.respawn && !fatal } }
  | respawn (slot : Nat) (process : Process) (hactivity : master.activity = .waiting)
      (hslot : master.processes[slot]? = some process) (hrunning : process.running = false)
      (hexiting : process.exiting = false) :
      Moves build file master (.reap slot true)
        { master with
          processes := master.processes.set slot
            { process with cycle := master.cycle, state := .accepting } }
  | lose (slot : Nat) (process : Process) (hactivity : master.activity = .waiting)
      (hslot : master.processes[slot]? = some process) (hrunning : process.running = false)
      (hexiting : process.exiting = false) :
      Moves build file master (.reap slot false)
        { master with processes := master.processes.set slot { process with state := .lost } }
  | free (slot : Nat) (forked : Bool) (process : Process) (hactivity : master.activity = .waiting)
      (hslot : master.processes[slot]? = some process) (hrunning : process.running = false)
      (hgiven : process.respawn = false ∨ process.exiting = true) :
      Moves build file master (.reap slot forked)
        { master with processes := master.processes.eraseIdx slot }

theorem Master.moves_reapProcess {build : Build} {file : Text} {master : Master} {slot : Nat}
    {process : Process} (forked : Bool) (hactivity : master.activity = .waiting)
    (hslot : master.processes[slot]? = some process) (hrunning : process.running = false) :
    master.Moves build file (.reap slot forked) (master.reapProcess slot process forked) := by
  unfold Master.reapProcess
  split
  next hkept =>
    cases forked with
    | true => exact .respawn slot process hactivity hslot hrunning hkept.2
    | false => exact .lose slot process hactivity hslot hrunning hkept.2
  next hgiven =>
    rw [not_and_or, Bool.not_eq_true, Bool.not_eq_false] at hgiven
    exact .free slot forked process hactivity hslot hrunning hgiven

theorem Master.moves_of_step {build : Build} {file : Text} {master next : Master}
    {step : MasterStep} (h : master.step build file step = some next) :
    master.Moves build file step next := by
  cases step with
  | wake =>
      simp only [Master.step] at h
      split at h
      next hactivity hpending =>
        cases h
        exact .wake hactivity hpending
      next => cases h
  | read count =>
      simp only [Master.step] at h
      split at h
      next size text hactivity =>
        split at h
        next hbound =>
          split at h
          next hbytes =>
            cases h
            exact .read size count text hactivity hbound.2 hbytes
          next hbytes =>
            cases h
            exact .shortRead size count text hactivity hbound.2 hbytes
        next => cases h
      next => cases h
  | finish opened forked =>
      simp only [Master.step] at h
      split at h
      next size text hactivity =>
        split at h
        next hsize =>
          subst hsize
          cases hload : loadFile build text with
          | error error =>
              rw [hload] at h
              cases h
              refine .keep opened forked text hactivity (Or.inr fun loaded hloaded => ?_)
              rw [hload] at hloaded
              cases hloaded
          | ok loaded =>
              rw [hload] at h
              cases opened with
              | true =>
                  cases h
                  exact .load forked text loaded hactivity hload
              | false =>
                  cases h
                  exact .keep false forked text hactivity (Or.inl rfl)
        next => cases h
      next => cases h
  | signalWorkers =>
      simp only [Master.step] at h
      split at h
      next hactivity =>
        cases h
        exact .signalWorkers hactivity
      next => cases h
  | quit slot =>
      simp only [Master.step] at h
      split at h
      next process hslot =>
        split at h
        next hquits =>
          cases h
          exact .quit slot process hslot hquits.1
        next => cases h
      next => cases h
  | exit slot fatal =>
      simp only [Master.step] at h
      split at h
      next process hslot =>
        split at h
        next hrunning =>
          cases h
          exact .exit slot fatal process hslot hrunning
        next => cases h
      next => cases h
  | reap slot forked =>
      simp only [Master.step] at h
      split at h
      next process hactivity hslot =>
        split at h
        next => cases h
        next hrunning =>
          cases h
          exact moves_reapProcess forked hactivity hslot (Bool.eq_false_of_not_eq_true hrunning)
      next => cases h

end NginxInterface.Reload
