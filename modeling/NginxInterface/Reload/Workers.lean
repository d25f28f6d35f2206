import NginxInterface.Reload.Master

/-! # The workers of the master

A reload is safe as far as the entries of the workers go. Once the old workers have been told to
shut down, those that were not have the cycle of the master; whatever a worker runs was loaded as
a whole. A worker that stays is left after a reload if one could be started for it. If none could
be started, since the operating system refuses or the table of processes is full, the reload stops
the service.
-/

namespace NginxInterface.Reload

open Js NginxInterface.Cycle Foundation

section Table

variable {Item : Type} {p : Item → Prop} {items : List Item} {slot : Nat} {old new : Item}

theorem forall_mem_set (h : ∀ item ∈ items, p item) (hnew : p new) :
    ∀ item ∈ items.set slot new, p item := by
  intro item hitem
  rcases List.mem_or_eq_of_mem_set hitem with hmem | rfl
  · exact h item hmem
  · exact hnew

theorem exists_mem_set_of_eraseIdx (h : ∃ item ∈ items.eraseIdx slot, p item) :
    ∃ item ∈ items.set slot new, p item := by
  obtain ⟨item, hitem, hp⟩ := h
  obtain ⟨index, hne, hindex⟩ := List.mem_eraseIdx_iff_getElem?.mp hitem
  refine ⟨item, List.mem_iff_getElem?.mpr ⟨index, ?_⟩, hp⟩
  rw [List.getElem?_set_ne hne.symm]
  exact hindex

theorem exists_mem_eraseIdx (hslot : items[slot]? = some old) (hold : ¬p old)
    (h : ∃ item ∈ items, p item) : ∃ item ∈ items.eraseIdx slot, p item := by
  obtain ⟨item, hitem, hp⟩ := h
  obtain ⟨index, hindex⟩ := List.mem_iff_getElem?.mp hitem
  refine ⟨item, List.mem_eraseIdx_iff_getElem?.mpr ⟨index, ?_, hindex⟩, hp⟩
  rintro rfl
  cases hindex.symm.trans hslot
  exact hold hp

theorem exists_mem_set (hslot : items[slot]? = some old) (hnew : p old → p new)
    (h : ∃ item ∈ items, p item) : ∃ item ∈ items.set slot new, p item := by
  by_cases hold : p old
  · exact ⟨new, List.mem_set (List.getElem?_eq_some_iff.mp hslot).1 new, hnew hold⟩
  · exact exists_mem_set_of_eraseIdx (exists_mem_eraseIdx hslot hold h)

end Table

/-! ## Starting workers -/

theorem mem_spawnProcess {cycle : Loaded} {justSpawn forked : Bool} {processes : List Process}
    {process : Process} (h : process ∈ spawnProcess cycle justSpawn processes forked) :
    process ∈ processes ∨ process = { cycle := cycle, justSpawn := justSpawn } := by
  unfold spawnProcess at h
  split at h
  · rw [List.mem_append, List.mem_singleton] at h
    exact h
  · exact Or.inl h

theorem mem_startWorkerProcesses {cycle : Loaded} {justSpawn : Bool} {processes : List Process}
    {forked : List Bool} {process : Process}
    (h : process ∈ startWorkerProcesses cycle justSpawn processes forked) :
    process ∈ processes ∨ process = { cycle := cycle, justSpawn := justSpawn } := by
  induction forked generalizing processes with
  | nil => exact Or.inl h
  | cons outcome rest ih =>
      rcases ih h with hmem | hnew
      · exact mem_spawnProcess hmem
      · exact Or.inr hnew

theorem startWorkerProcesses_of_mem (cycle : Loaded) (justSpawn : Bool)
    {processes : List Process} {process : Process} (h : process ∈ processes)
    (forked : List Bool) : process ∈ startWorkerProcesses cycle justSpawn processes forked := by
  induction forked generalizing processes with
  | nil => exact h
  | cons outcome rest ih =>
      refine ih ?_
      unfold spawnProcess
      split
      · exact List.mem_append_left _ h
      · exact h

/-- One successful fork is enough while there is a free entry. -/
theorem startWorkerProcesses_starts (cycle : Loaded) (justSpawn : Bool)
    {processes : List Process} (hroom : processes.length < maxProcesses) {forked : List Bool}
    (hforked : true ∈ forked) :
    { cycle := cycle, justSpawn := justSpawn : Process } ∈
      startWorkerProcesses cycle justSpawn processes forked := by
  induction forked with
  | nil => cases hforked
  | cons outcome rest ih =>
      cases outcome with
      | true =>
          refine startWorkerProcesses_of_mem cycle justSpawn ?_ rest
          rw [spawnProcess, if_pos ⟨hroom, rfl⟩]
          exact List.mem_append_right _ List.mem_cons_self
      | false =>
          have hsame : spawnProcess cycle justSpawn processes false = processes :=
            if_neg fun h => Bool.false_ne_true h.2
          have hrest : true ∈ rest := by simpa using hforked
          rw [startWorkerProcesses, List.foldl_cons, hsame]
          exact ih hrest

/-- No worker is started if the operating system refuses or the table is full. -/
theorem startWorkerProcesses_none (cycle : Loaded) (justSpawn : Bool) {processes : List Process}
    {forked : List Bool} (h : true ∉ forked ∨ maxProcesses ≤ processes.length) :
    startWorkerProcesses cycle justSpawn processes forked = processes := by
  induction forked with
  | nil => rfl
  | cons outcome rest ih =>
      have hsame : spawnProcess cycle justSpawn processes outcome = processes := by
        refine if_neg fun hspawn => ?_
        rcases h with hnone | hfull
        · exact hnone (hspawn.2 ▸ List.mem_cons_self)
        · exact absurd hspawn.1 (Nat.not_lt.mpr hfull)
      rw [startWorkerProcesses, List.foldl_cons, hsame]
      exact ih (h.imp_left fun hnone hrest => hnone (List.mem_cons_of_mem _ hrest))

theorem Process.shutdown_eq (process : Process) : ∃ exiting,
    process.shutdown = { process with justSpawn := false, exiting := exiting } := by
  unfold shutdown
  split
  next => exact ⟨process.exiting, rfl⟩
  next hjust =>
    rw [← Bool.eq_false_of_not_eq_true hjust]
    split
    · exact ⟨process.exiting, rfl⟩
    · exact ⟨true, rfl⟩

@[simp] theorem Process.cycle_shutdown (process : Process) :
    process.shutdown.cycle = process.cycle := by
  obtain ⟨exiting, heq⟩ := process.shutdown_eq
  rw [heq]

@[simp] theorem Process.respawn_shutdown (process : Process) :
    process.shutdown.respawn = process.respawn := by
  obtain ⟨exiting, heq⟩ := process.shutdown_eq
  rw [heq]

@[simp] theorem Process.accepting_shutdown (process : Process) :
    process.shutdown.accepting = process.accepting := by
  obtain ⟨exiting, heq⟩ := process.shutdown_eq
  rw [heq]
  rfl

theorem Process.justSpawn_shutdown (process : Process) : process.shutdown.justSpawn = false := by
  obtain ⟨exiting, heq⟩ := process.shutdown_eq
  rw [heq]

/-- Only a worker that was started for the new cycle is spared, or one that does not run. -/
theorem Process.shutdown_spares {process : Process} (haccepting : process.accepting = true)
    (hspared : process.shutdown.exiting = false) : process.justSpawn = true := by
  unfold shutdown at hspared
  split at hspared
  next hjust => exact hjust
  next =>
    split at hspared
    next hlost => simp [Process.accepting, hlost] at haccepting
    next => cases hspared

/-! ## The cycle of the workers -/

/-- Once the others have been told to shut down, a worker that was not has the cycle of the
master. -/
def Process.Current (master : Master) (process : Process) : Prop :=
  match master.activity with
  | .started => process.justSpawn = true → process.cycle = master.cycle
  | _ => process.justSpawn = false ∧
      (process.exiting = false → process.accepting = true → process.cycle = master.cycle)

/-- A worker that does not accept connections, or stops doing so, only keeps its cycle. -/
theorem Process.Current.stop {master : Master} {process other : Process}
    (h : process.Current master) (hcycle : other.cycle = process.cycle)
    (hspawn : other.justSpawn = process.justSpawn)
    (hstops : other.exiting = false → other.accepting = false) : other.Current master := by
  unfold Process.Current at *
  rw [hcycle, hspawn]
  split at h
  next => exact h
  next =>
    refine ⟨h.1, fun hstays haccepting => ?_⟩
    rw [hstops hstays] at haccepting
    cases haccepting

namespace Master

def WorkersCurrent (master : Master) : Prop :=
  ∀ process ∈ master.processes, process.Current master

theorem start_workersCurrent (cycle : Loaded) (forked : List Bool) :
    (start cycle forked).WorkersCurrent := by
  intro process hprocess
  rcases mem_startWorkerProcesses hprocess with hnone | rfl
  · cases hnone
  · exact ⟨rfl, fun _ _ => rfl⟩

theorem WorkersCurrent.step {build : Build} {file : Text} {master next : Master}
    {step : MasterStep} (h : master.WorkersCurrent)
    (hstep : master.step build file step = some next) : next.WorkersCurrent := by
  have hentry {slot : Nat} {process : Process} (hslot : master.processes[slot]? = some process) :
      process.Current master := h process (List.mem_of_getElem? hslot)
  cases moves_of_step hstep with
  | wake hactivity => simpa [WorkersCurrent, Process.Current, hactivity] using h
  | read size count text hactivity =>
      simpa [WorkersCurrent, Process.Current, hactivity] using h
  | shortRead size count text hactivity =>
      simpa [WorkersCurrent, Process.Current, hactivity] using h
  | keep opened forked text hactivity =>
      simpa [WorkersCurrent, Process.Current, hactivity] using h
  | load forked text loaded hactivity hload =>
      simp only [WorkersCurrent, Process.Current, hactivity] at h
      intro process hprocess hjust
      rcases mem_startWorkerProcesses hprocess with hold | rfl
      · exact absurd hjust (by simp [(h process hold).1])
      · rfl
  | signalWorkers hactivity =>
      simp only [WorkersCurrent, Process.Current, hactivity] at h
      intro process hprocess
      obtain ⟨old, hold, rfl⟩ := List.mem_map.mp hprocess
      refine ⟨old.justSpawn_shutdown, fun hspared haccepting => ?_⟩
      rw [Process.accepting_shutdown] at haccepting
      rw [Process.cycle_shutdown]
      exact h old hold (Process.shutdown_spares haccepting hspared)
  | quit slot process hslot hexiting =>
      refine forall_mem_set h ((hentry hslot).stop rfl rfl fun hstays => ?_)
      exact absurd hexiting (ne_true_of_eq_false hstays)
  | exit slot fatal process hslot hrunning =>
      exact forall_mem_set h ((hentry hslot).stop rfl rfl fun _ => rfl)
  | respawn slot process hactivity hslot hrunning hexiting =>
      have hspawn : process.justSpawn = false := by
        have hown := hentry hslot
        simp only [Process.Current, hactivity] at hown
        exact hown.1
      refine forall_mem_set h ?_
      simpa [Process.Current, hactivity] using hspawn
  | lose slot process hactivity hslot hrunning hexiting =>
      exact forall_mem_set h ((hentry hslot).stop rfl rfl fun _ => rfl)
  | free slot forked process hactivity hslot hrunning hgiven =>
      exact fun other hother => h other (List.mem_of_mem_eraseIdx hother)

theorem Settled.accepting {master : Master} (h : master.Settled) (hcurrent : master.WorkersCurrent)
    {process : Process} (hprocess : process ∈ master.processes)
    (haccepting : process.accepting = true) : process.cycle = master.cycle := by
  have hown := hcurrent process hprocess
  simp only [Process.Current, h.activity] at hown
  cases hexiting : process.exiting with
  | false => exact hown.2 hexiting haccepting
  | true =>
      rw [h.exiting process hprocess hexiting] at haccepting
      cases haccepting

/-- The cycle of the master and those of its workers are the first one or come from a file that
was loaded without an error. -/
structure Vetted (build : Build) (first : Loaded) (master : Master) : Prop where
  cycle : master.cycle = first ∨ ∃ text, loadFile build text = .ok master.cycle
  processes : ∀ process ∈ master.processes,
    process.cycle = first ∨ ∃ text, loadFile build text = .ok process.cycle

theorem start_vetted (build : Build) (cycle : Loaded) (forked : List Bool) :
    (start cycle forked).Vetted build cycle where
  cycle := Or.inl rfl
  processes process hprocess := by
    rcases mem_startWorkerProcesses hprocess with hnone | rfl
    · cases hnone
    · exact Or.inl rfl

theorem Vetted.step {build : Build} {first : Loaded} {file : Text} {master next : Master}
    {step : MasterStep} (h : master.Vetted build first)
    (hstep : master.step build file step = some next) : next.Vetted build first := by
  -- an entry that is changed in place keeps its cycle or gets that of the master
  have hentry {slot : Nat} {process : Process} (hslot : master.processes[slot]? = some process) :=
    h.processes process (List.mem_of_getElem? hslot)
  cases moves_of_step hstep with
  | wake => exact ⟨h.cycle, h.processes⟩
  | read => exact ⟨h.cycle, h.processes⟩
  | shortRead => exact ⟨h.cycle, h.processes⟩
  | keep => exact ⟨h.cycle, h.processes⟩
  | load forked text loaded hactivity hload =>
      refine ⟨Or.inr ⟨text, hload⟩, fun process hprocess => ?_⟩
      rcases mem_startWorkerProcesses hprocess with hold | rfl
      · exact h.processes process hold
      · exact Or.inr ⟨text, hload⟩
  | signalWorkers hactivity =>
      refine ⟨h.cycle, fun process hprocess => ?_⟩
      obtain ⟨before, hbefore, rfl⟩ := List.mem_map.mp hprocess
      rw [Process.cycle_shutdown]
      exact h.processes before hbefore
  | quit slot process hslot =>
      have hcycle := hentry hslot
      exact ⟨h.cycle, forall_mem_set h.processes hcycle⟩
  | exit slot fatal process hslot =>
      have hcycle := hentry hslot
      exact ⟨h.cycle, forall_mem_set h.processes hcycle⟩
  | respawn slot process => exact ⟨h.cycle, forall_mem_set h.processes h.cycle⟩
  | lose slot process hactivity hslot =>
      have hcycle := hentry hslot
      exact ⟨h.cycle, forall_mem_set h.processes hcycle⟩
  | free slot =>
      exact ⟨h.cycle, fun other hother => h.processes other (List.mem_of_mem_eraseIdx hother)⟩

end Master

/-! ## Workers that stay -/

/-- The worker is not told to shut down, not even at the end of the reload that is going on. -/
def Process.Stays (activity : Activity) (process : Process) : Prop :=
  process.exiting = false ∧ (activity = .started → process.justSpawn = true)

instance (activity : Activity) (process : Process) : Decidable (process.Stays activity) :=
  inferInstanceAs (Decidable (_ ∧ _))

theorem Process.Stays.shutdown {process : Process} (h : process.Stays .started) :
    process.shutdown.Stays .waiting := by
  refine ⟨?_, nofun⟩
  rw [Process.shutdown, if_pos (h.2 rfl)]
  exact h.1

namespace Master

/-- If there is a new cycle, some worker of it can be started: the table is not full, and one
fork succeeds. -/
def Staffs (build : Build) (master : Master) : MasterStep → Prop
  | .finish opened forked =>
      match master.activity with
      | .reading _ text => opened = true → (loadFile build text).isOk = true →
          true ∈ forked ∧ master.processes.length < maxProcesses
      | _ => True
  | _ => True

/-- A worker ends only after it was told to shut down, or while another one that accepts
connections stays. -/
def Spares (master : Master) : MasterStep → Prop
  | .exit slot _ =>
      (∀ process ∈ master.processes[slot]?, process.exiting = true) ∨
        ∃ other ∈ master.processes.eraseIdx slot,
          other.Stays master.activity ∧ other.accepting = true
  | _ => True

instance (build : Build) (master : Master) (step : MasterStep) :
    Decidable (master.Staffs build step) := by
  unfold Staffs
  split
  · split
    · infer_instance
    · infer_instance
  · infer_instance

instance (master : Master) (step : MasterStep) : Decidable (master.Spares step) := by
  unfold Spares
  split
  · infer_instance
  · infer_instance

/-- Some worker stays and is started again when it ends. -/
def Kept (master : Master) : Prop :=
  ∃ process ∈ master.processes, process.Stays master.activity ∧ process.respawn = true

/-- Some worker stays and accepts connections. -/
def Serving (master : Master) : Prop :=
  ∃ process ∈ master.processes, process.Stays master.activity ∧ process.accepting = true

theorem start_starts (cycle : Loaded) {forked : List Bool} (hforked : true ∈ forked) :
    { cycle := cycle, justSpawn := false : Process } ∈ (start cycle forked).processes :=
  startWorkerProcesses_starts cycle false (by decide) hforked

theorem start_kept (cycle : Loaded) {forked : List Bool} (hforked : true ∈ forked) :
    (start cycle forked).Kept :=
  ⟨_, start_starts cycle hforked, ⟨rfl, nofun⟩, rfl⟩

theorem start_serving (cycle : Loaded) {forked : List Bool} (hforked : true ∈ forked) :
    (start cycle forked).Serving :=
  ⟨_, start_starts cycle hforked, ⟨rfl, nofun⟩, rfl⟩

theorem Staffs.starts {build : Build} {master : Master} {forked : List Bool}
    (h : master.Staffs build (.finish true forked)) {size : Nat} {text : Text} {loaded : Loaded}
    (hactivity : master.activity = .reading size text)
    (hload : loadFile build text = .ok loaded) :
    { cycle := loaded, justSpawn := true : Process } ∈
      startWorkerProcesses loaded true master.processes forked := by
  simp only [Staffs, hactivity, hload] at h
  obtain ⟨hforked, hroom⟩ := h trivial rfl
  exact startWorkerProcesses_starts loaded true hroom hforked

/-- The entry of a worker that stays is only given up after a fatal error. -/
theorem Kept.step {build : Build} {file : Text} {master next : Master} {step : MasterStep}
    (h : master.Kept) (hstaffs : master.Staffs build step) (hfatal : ∀ slot, step ≠ .exit slot true)
    (hstep : master.step build file step = some next) : next.Kept := by
  obtain ⟨old, hold, hstays, hrespawn⟩ := id h
  cases moves_of_step hstep with
  | wake => exact ⟨old, hold, ⟨hstays.1, nofun⟩, hrespawn⟩
  | read => exact ⟨old, hold, ⟨hstays.1, nofun⟩, hrespawn⟩
  | shortRead => exact ⟨old, hold, ⟨hstays.1, nofun⟩, hrespawn⟩
  | keep => exact ⟨old, hold, ⟨hstays.1, nofun⟩, hrespawn⟩
  | load forked text loaded hactivity hload =>
      have hnew := hstaffs.starts hactivity hload
      exact ⟨_, hnew, ⟨rfl, fun _ => rfl⟩, rfl⟩
  | signalWorkers hactivity =>
      rw [hactivity] at hstays
      refine ⟨old.shutdown, List.mem_map_of_mem hold, hstays.shutdown, ?_⟩
      rw [Process.respawn_shutdown]
      exact hrespawn
  | quit slot process hslot => exact exists_mem_set hslot id h
  | exit slot fatal process hslot =>
      cases fatal with
      | true => exact absurd rfl (hfatal slot)
      | false =>
          refine exists_mem_set hslot (fun hown => ⟨hown.1, ?_⟩) h
          simp [hown.2]
  | respawn slot process hactivity hslot => exact exists_mem_set hslot id h
  | lose slot process hactivity hslot => exact exists_mem_set hslot id h
  | free slot forked process hactivity hslot hrunning hgiven =>
      refine exists_mem_eraseIdx hslot (fun hown => ?_) h
      rcases hgiven with hfatal | hexiting
      · exact Bool.false_ne_true (hfatal.symm.trans hown.2)
      · exact Bool.false_ne_true (hown.1.1.symm.trans hexiting)

theorem Serving.step {build : Build} {file : Text} {master next : Master} {step : MasterStep}
    (h : master.Serving) (hstaffs : master.Staffs build step) (hspares : master.Spares step)
    (hstep : master.step build file step = some next) : next.Serving := by
  obtain ⟨old, hold, hstays, haccepting⟩ := id h
  -- an entry that the master reaps is not the one of a worker that accepts connections
  have hreaped {process : Process} (hrunning : process.running = false) :
      ¬(process.Stays master.activity ∧ process.accepting = true) := by
    rintro ⟨-, hown⟩
    simp only [Process.accepting, decide_eq_true_eq] at hown
    simp [Process.running, hown] at hrunning
  cases moves_of_step hstep with
  | wake => exact ⟨old, hold, ⟨hstays.1, nofun⟩, haccepting⟩
  | read => exact ⟨old, hold, ⟨hstays.1, nofun⟩, haccepting⟩
  | shortRead => exact ⟨old, hold, ⟨hstays.1, nofun⟩, haccepting⟩
  | keep => exact ⟨old, hold, ⟨hstays.1, nofun⟩, haccepting⟩
  | load forked text loaded hactivity hload =>
      have hnew := hstaffs.starts hactivity hload
      exact ⟨_, hnew, ⟨rfl, fun _ => rfl⟩, rfl⟩
  | signalWorkers hactivity =>
      rw [hactivity] at hstays
      refine ⟨old.shutdown, List.mem_map_of_mem hold, hstays.shutdown, ?_⟩
      rw [Process.accepting_shutdown]
      exact haccepting
  | quit slot process hslot hexiting =>
      refine exists_mem_set hslot (fun hown => ?_) h
      exact absurd hexiting (ne_true_of_eq_false hown.1.1)
  | exit slot fatal process hslot =>
      rcases hspares with htold | hother
      · refine exists_mem_set hslot (fun hown => ?_) h
        exact absurd (htold process hslot) (ne_true_of_eq_false hown.1.1)
      · exact exists_mem_set_of_eraseIdx hother
  | respawn slot process hactivity hslot hrunning =>
      exact exists_mem_set hslot (fun hown => absurd hown (hreaped hrunning)) h
  | lose slot process hactivity hslot hrunning =>
      exact exists_mem_set hslot (fun hown => absurd hown (hreaped hrunning)) h
  | free slot forked process hactivity hslot hrunning =>
      exact exists_mem_eraseIdx hslot (hreaped hrunning) h

/-- If no worker can be started for a new configuration, those of the old one are told to shut
down nevertheless. -/
theorem stopped_of_unstaffed {build : Build} {file : Text} {master loaded next : Master}
    {forked : List Bool} (hcurrent : master.WorkersCurrent)
    (hnone : true ∉ forked ∨ maxProcesses ≤ master.processes.length)
    (hfinish : master.step build file (.finish true forked) = some loaded)
    (hsignal : loaded.step build file .signalWorkers = some next) :
    ∀ process ∈ next.processes, process.accepting = true → process.exiting = true := by
  cases moves_of_step hsignal with
  | signalWorkers hstarted =>
  cases moves_of_step hfinish with
  | keep => cases hstarted
  | load forked text loaded hactivity hload =>
  intro process hprocess haccepting
  obtain ⟨old, hold, rfl⟩ := List.mem_map.mp hprocess
  rw [startWorkerProcesses_none loaded true hnone] at hold
  have hown := hcurrent old hold
  simp only [Process.Current, hactivity] at hown
  rw [Process.accepting_shutdown] at haccepting
  by_contra hspared
  have hjust := Process.shutdown_spares haccepting (Bool.eq_false_of_not_eq_true hspared)
  exact Bool.false_ne_true (hown.1.symm.trans hjust)

end Master

end NginxInterface.Reload
