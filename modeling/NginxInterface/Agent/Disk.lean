import NginxInterface.Agent.Invariants
import NginxInterface.Template.Locality

/-! # What the calls leave on disk

Nothing orders the writes of different calls. If every write takes effect as a
whole, the file is the rendering that the last effective write carried, which is
the rendering of `current_conf` as the writing call left it and not of what later
calls made of it. Inside a write the file may be torn; a call signals nginx on a
complete file when no other call has touched the file since it opened it.
-/

namespace NginxInterface

open Foundation Js Ejs

variable {N : Type}

/-! ## Whole writes -/

/-- The call whose write takes effect in a step. -/
def Step.effect? : Step N → Option Nat
  | .writeFile index => some index
  | _ => none

/-- Writes succeed, and take effect as a whole. -/
def Step.wholeWrite : Step N → Prop
  | .openFile _ => False
  | .writeBytes _ _ => False
  | .closeFile _ => False
  | .failFile _ => False
  | _ => True

/-- The call whose write took effect last. -/
def lastWrite (steps : List (Step N)) : Option Nat :=
  (steps.filterMap Step.effect?).getLast?

/-- The call that truncates the file or writes to it in a step. -/
def Step.touches? : Step N → Option Nat
  | .openFile index => some index
  | .writeBytes index _ => some index
  | .writeFile index => some index
  | _ => none

theorem lastWrite_cons (step : Step N) (rest : List (Step N)) :
    lastWrite (step :: rest) = (lastWrite rest).or step.effect? := by
  unfold lastWrite
  cases heffect : step.effect? with
  | none => simp [heffect]
  | some index =>
      rw [List.filterMap_cons_some heffect, List.getLast?_cons]
      cases (List.filterMap Step.effect? rest).getLast? <;> rfl

namespace Agent

section WholeWrites

variable [Number N]

/-- One step with whole writes: the file changes only where a write takes effect,
and then to the text that this write carries. -/
theorem step_file {conf : Conf N} {agent next : Agent N} {step : Step N}
    (hagent : Consistent conf agent) (hwhole : step.wholeWrite)
    (h : agent.step step = some next) :
    match step.effect? with
    | none => next.file = agent.file
    | some index => index < agent.calls.length ∧
        render (confAt conf agent index) = .ok next.file := by
  obtain ⟨call, rfl, rfl⟩ | ⟨index, cfg, rfl, _, _⟩ |
    ⟨index, count, cfg, position, rfl, _, _, _⟩ | ⟨index, cfg, rfl, _, _⟩ |
    ⟨index, cfg, rfl, hphase, rfl⟩ | ⟨index, rfl, _, _⟩ |
    ⟨index, delivered, rfl, _, rfl⟩ | ⟨index, err, rfl, _, rfl⟩ := step_cases h
  · rfl
  · exact absurd hwhole id
  · exact absurd hwhole id
  · exact absurd hwhole id
  · exact ⟨phase?_lt hphase, hagent.pending index _ cfg hphase rfl⟩
  · exact absurd hwhole id
  · rfl
  · rfl

theorem run_file {conf : Conf N} {agent final : Agent N} {steps : List (Step N)}
    (hagent : Consistent conf agent) (hwhole : ∀ step ∈ steps, step.wholeWrite)
    (h : agent.run steps = some final) :
    match lastWrite steps with
    | none => final.file = agent.file
    | some index => render (confAt conf final index) = .ok final.file := by
  induction steps generalizing agent with
  | nil =>
      have hfinal := Option.some.inj h
      exact hfinal ▸ rfl
  | cons step rest ih =>
      obtain ⟨next, hnext, hrest⟩ := runSteps_cons_eq_some _ h
      have hstep := step_file hagent (hwhole step List.mem_cons_self) hnext
      have htail := ih (hagent.step hnext)
        (fun other hother => hwhole other (List.mem_cons_of_mem _ hother)) hrest
      rw [lastWrite_cons]
      cases hlast : lastWrite rest with
      | some index =>
          rw [hlast] at htail
          exact htail
      | none =>
          -- the first step is the only candidate, and later arrivals do not
          -- change which configuration its call saw
          rw [hlast] at htail
          cases heffect : step.effect? with
          | none =>
              rw [heffect] at hstep
              exact htail.trans hstep
          | some index =>
              rw [heffect] at hstep
              obtain ⟨hindex, hrender⟩ := hstep
              obtain ⟨hcallsNext, _⟩ := step_calls hnext
              obtain ⟨hcalls, _⟩ := run_calls hrest
              rw [hcallsNext, List.append_assoc] at hcalls
              change render (confAt conf final index) = .ok final.file
              rw [htail, confAt_of_calls hcalls hindex]
              exact hrender

/-- With writes that succeed and take effect as a whole, the file is the
rendering of `current_conf` right after the arrival of the call whose write took
effect last. It is the rendering of the final `current_conf` exactly when the two
configurations render alike, in particular when no later call changed anything. -/
theorem file_eq_render_at_lastWrite (conf : Conf N) (file : Text) (steps : List (Step N))
    (final : Agent N) (index : Nat) (hrun : (idle conf file).run steps = some final)
    (hwhole : ∀ step ∈ steps, step.wholeWrite) (hlast : lastWrite steps = some index) :
    render (confAt conf final index) = .ok final.file ∧
      (render final.conf = .ok final.file ↔
        render final.conf = render (confAt conf final index)) ∧
      (final.conf = confAt conf final index → render final.conf = .ok final.file) := by
  have hfile := run_file (consistent_idle conf file) hwhole hrun
  rw [hlast] at hfile
  have hrender : render (confAt conf final index) = .ok final.file := hfile
  refine ⟨hrender, ?_, ?_⟩
  · rw [hrender]
  · intro hconf
    rw [hconf]
    exact hrender

/-- An application is added and deleted again, and the writes of the two calls take
effect in the opposite order. -/
def overtakingSteps : List (Step Int) :=
  [.arrive (.forward "web" 80 8001), .arrive (.deletePortRouting "web" (.num 8001)),
    .writeFile 1, .writeFile 0, .reload 0 true, .reload 1 true, .reply 0, .reply 1]

theorem overtakingSteps_whole : ∀ step ∈ overtakingSteps, step.wholeWrite := by
  simp [overtakingSteps, Step.wholeWrite]

theorem overtakingSteps_run : ∃ final : Agent Int,
    (idle emptyConf []).run overtakingSteps = some final ∧ final.quiescent := by
  have hrun : ((idle emptyConf []).run overtakingSteps).map
      (fun final => final.tasks.all fun task => task.phase.finished) = some true := by
    decide +kernel
  obtain ⟨final, hfinal, hfinished⟩ := Option.map_eq_some_iff.mp hrun
  exact ⟨final, hfinal, List.all_eq_true.mp hfinished⟩

theorem file_eq_render_at_lastWrite_overtaken : ∃ final : Agent Int,
    (idle emptyConf []).run overtakingSteps = some final ∧
      render (confAt emptyConf final 0) = .ok final.file := by
  obtain ⟨final, hfinal, _⟩ := overtakingSteps_run
  exact ⟨final, hfinal, (file_eq_render_at_lastWrite emptyConf [] overtakingSteps final 0 hfinal
    overtakingSteps_whole rfl).1⟩

/-- All calls are done and all writes have succeeded, and the file still has the
application that is no longer configured. -/
theorem overtaken_write_lost : ∃ final : Agent Int,
    (idle emptyConf []).run overtakingSteps = some final ∧ final.quiescent ∧
      (∀ step ∈ overtakingSteps, step.wholeWrite) ∧ render final.conf ≠ .ok final.file := by
  obtain ⟨final, hfinal, hquiescent⟩ := overtakingSteps_run
  refine ⟨final, hfinal, hquiescent, overtakingSteps_whole, ?_⟩
  obtain ⟨hcalls, hconf⟩ := run_calls hfinal
  have hfile : render (confAt emptyConf final 0) = .ok final.file :=
    run_file (consistent_idle emptyConf []) overtakingSteps_whole hfinal
  -- the file was written by the first call, which saw the application
  have hstale : confAt emptyConf final 0 = execAll emptyConf [.forward "web" 80 8001] := by
    rw [confAt, hcalls]
    rfl
  have hcurrent : final.conf =
      { execAll emptyConf [.forward "web" 80 8001] with http := .empty } := by
    rw [hconf]
    rfl
  obtain ⟨apps, happs⟩ : ∃ apps,
      httpApps (execAll emptyConf [.forward "web" 80 8001]).http = .ok (' ' :: apps) := ⟨_, rfl⟩
  have hshift := Shifts.ok (' ' :: apps) []
  rw [← happs] at hshift
  rw [hstale] at hfile
  rw [hcurrent]
  exact (render_http_shifts hshift).ne (by simp) hfile

end WholeWrites

/-! ## Writes in progress -/

/-- The file holds what the given call has written so far, all of it once the
write has ended. Nothing is said about a write that failed. -/
def OwnsFile (writer : Nat) (cfg : Text) (agent : Agent N) : Prop :=
  match agent.phase? writer with
  | some (.writing _) => False
  | some (.opened text position) =>
      text = cfg ∧ position ≤ cfg.length ∧ agent.file = cfg.take position
  | some .closed => agent.file = cfg
  | some (.replying none) => agent.file = cfg
  | some (.replied none) => agent.file = cfg
  | _ => True

/-- What a call owns depends on its own phase and on the file. -/
theorem OwnsFile.congr {writer : Nat} {cfg : Text} {agent next : Agent N}
    (h : OwnsFile writer cfg agent) (hphase : next.phase? writer = agent.phase? writer)
    (hfile : next.file = agent.file) : OwnsFile writer cfg next := by
  unfold OwnsFile at *
  rw [hphase, hfile]
  exact h

/-- The given call has written all of its text and closed the file. -/
def writeEnded (agent : Agent N) (writer : Nat) : Prop :=
  agent.phase? writer = some .closed ∨ agent.phase? writer = some (.replying none) ∨
    agent.phase? writer = some (.replied none)

theorem OwnsFile.complete {writer : Nat} {cfg : Text} {agent : Agent N}
    (h : OwnsFile writer cfg agent) (hended : agent.writeEnded writer) : agent.file = cfg := by
  unfold OwnsFile at h
  rcases hended with hphase | hphase | hphase
  · rw [hphase] at h
    exact h
  · rw [hphase] at h
    exact h
  · rw [hphase] at h
    exact h

variable [Number N]

theorem OwnsFile.step {writer : Nat} {cfg : Text} {agent next : Agent N} {step : Step N}
    (hagent : OwnsFile writer cfg agent) (hwriter : writer < agent.calls.length)
    (htouch : step.touches? = none ∨ step.touches? = some writer)
    (h : agent.step step = some next) : OwnsFile writer cfg next := by
  have hother : ∀ (other : Nat) (phase : Phase), writer ≠ other →
      OwnsFile writer cfg (agent.setPhase other phase) := by
    intro other phase hne
    exact hagent.congr (phase?_setPhase_of_ne agent phase hne) rfl
  have hsame : ∀ {old : Phase} (phase : Phase) (file : Text), agent.phase? writer = some old →
      ({ agent.setPhase writer phase with file := file } : Agent N).phase? writer = some phase :=
    fun phase _ hold => phase?_setPhase_self agent phase hold
  obtain ⟨call, rfl, rfl⟩ | ⟨other, text, rfl, hphase, rfl⟩ |
    ⟨other, count, text, position, rfl, hphase, hbound, rfl⟩ | ⟨other, text, rfl, hphase, rfl⟩ |
    ⟨other, text, rfl, hphase, rfl⟩ | ⟨other, rfl, ⟨text, hphase⟩, rfl⟩ |
    ⟨other, delivered, rfl, hphase, rfl⟩ | ⟨other, err, rfl, hphase, rfl⟩ := step_cases h
  · refine hagent.congr ?_ rfl
    rw [phase?_arrive, if_neg (Nat.ne_of_lt hwriter)]
  · -- the owner is past its opening, and another call may not open the file
    obtain hnone | hsome := htouch
    · cases hnone
    · cases hsome
      rw [OwnsFile, hphase] at hagent
      exact absurd hagent id
  · obtain hnone | hsome := htouch
    · cases hnone
    · cases hsome
      rw [OwnsFile, hphase] at hagent
      obtain ⟨rfl, hposition, hfile⟩ := hagent
      rw [OwnsFile, hsame _ _ hphase]
      refine ⟨rfl, hbound, ?_⟩
      -- the chunk lands right behind the bytes already there, so the file is a longer beginning
      change writeAt nul agent.file position ((text.drop position).take count) = _
      rw [hfile, writeAt_own_prefix nul text position count hposition]
  · by_cases hne : writer = other
    · subst hne
      rw [OwnsFile, hphase] at hagent
      obtain ⟨rfl, _, hfile⟩ := hagent
      rw [OwnsFile, phase?_setPhase_self agent _ hphase]
      -- `closeFile` is only enabled at the end of the text: the beginning is all of it
      change agent.file = text
      rw [hfile, List.take_length]
    · exact hother other _ hne
  · obtain hnone | hsome := htouch
    · cases hnone
    · cases hsome
      rw [OwnsFile, hphase] at hagent
      exact absurd hagent id
  · by_cases hne : writer = other
    · subst hne
      rw [OwnsFile]
      obtain hphase | ⟨position, hphase⟩ := hphase
      · rw [phase?_setPhase_self agent _ hphase]
        trivial
      · rw [phase?_setPhase_self agent _ hphase]
        trivial
    · exact hother other _ hne
  · by_cases hne : writer = other
    · subst hne
      rw [OwnsFile, hphase] at hagent
      rw [OwnsFile, phase?_setPhase_self agent _ hphase]
      cases delivered with
      | true => exact hagent
      | false => trivial
    · exact hother other _ hne
  · by_cases hne : writer = other
    · subst hne
      rw [OwnsFile, hphase] at hagent
      rw [OwnsFile, phase?_setPhase_self agent _ hphase]
      cases err with
      | none => exact hagent
      | some fault => trivial
    · exact hother other _ hne

theorem OwnsFile.run {writer : Nat} {cfg : Text} {agent final : Agent N}
    {steps : List (Step N)} (hagent : OwnsFile writer cfg agent)
    (hwriter : writer < agent.calls.length)
    (htouch : ∀ step ∈ steps, step.touches? = none ∨ step.touches? = some writer)
    (h : agent.run steps = some final) : OwnsFile writer cfg final := by
  induction steps generalizing agent with
  | nil =>
      have hfinal := Option.some.inj h
      exact hfinal ▸ hagent
  | cons step rest ih =>
      obtain ⟨next, hnext, hrest⟩ := runSteps_cons_eq_some _ h
      have hnextWriter : writer < next.calls.length := by
        rw [(step_calls hnext).1, List.length_append]
        omega
      have howned := hagent.step hwriter (htouch step List.mem_cons_self) hnext
      exact ih howned hnextWriter
        (fun other hother => htouch other (List.mem_cons_of_mem _ hother)) hrest

/-- The file is what the call that opened it last has written, if no other call
has touched it since. -/
theorem file_of_last_opened {conf : Conf N} {file : Text} {before during : List (Step N)}
    {writer : Nat} {agent : Agent N}
    (hrun : (idle conf file).run (before ++ .openFile writer :: during) = some agent)
    (halone : ∀ step ∈ during, step.touches? = none ∨ step.touches? = some writer)
    (hended : agent.writeEnded writer) : render (confAt conf agent writer) = .ok agent.file := by
  obtain ⟨ready, hready, hopened⟩ := runSteps_append_eq_some _ hrun
  obtain ⟨opened, hopen, hduring⟩ := runSteps_cons_eq_some _ hopened
  have hconsistent := (consistent_idle conf file).run hready
  obtain ⟨cfg, hwriting, hnext⟩ : ∃ cfg, ready.phase? writer = some (.writing cfg) ∧
      opened = { ready.setPhase writer (.opened cfg 0) with file := [] } := by
    simp only [Agent.step] at hopen
    split at hopen
    next cfg hphase => exact ⟨cfg, hphase, (Option.some.inj hopen).symm⟩
    next => cases hopen
  have hwriter := phase?_lt hwriting
  have hrender := hconsistent.pending writer _ cfg hwriting rfl
  have hopenedWriter : writer < opened.calls.length := by
    rw [(step_calls hopen).1, List.length_append]
    omega
  have hcalls : agent.calls = ready.calls ++ arrivals (.openFile writer :: during) :=
    (run_calls hopened).1
  -- opening truncates the file, which makes it the empty beginning of this text
  have howned : OwnsFile writer cfg opened := by
    have hphase : opened.phase? writer = some (.opened cfg 0) := by
      rw [hnext]
      exact phase?_setPhase_self ready _ hwriting
    rw [OwnsFile, hphase]
    refine ⟨rfl, Nat.zero_le _, ?_⟩
    rw [hnext]
    rfl
  have hfile := (howned.run hopenedWriter halone hduring).complete hended
  rw [confAt_of_calls hcalls hwriter, hrender, hfile]

/-- A whole write is what opening the file, writing the text and closing it amount
to when nothing comes between. -/
theorem writeFile_eq_run {conf : Conf N} {agent next : Agent N} {index : Nat}
    (hagent : Consistent conf agent) (h : agent.step (.writeFile index) = some next) :
    ∃ count, agent.run [.openFile index, .writeBytes index count, .closeFile index] =
      some next := by
  simp only [Agent.step] at h
  split at h
  next cfg hphase =>
    cases Option.some.inj h
    -- a rendered text is never empty, so one chunk of the whole text is an enabled write
    have hcfg : 0 < cfg.length :=
      List.length_pos_of_ne_nil (render_ne_nil (hagent.pending index _ cfg hphase rfl))
    have hbytes : writeAt nul [] 0 cfg = cfg := by
      have hown := writeAt_own_prefix nul cfg 0 cfg.length (Nat.zero_le _)
      rwa [List.take_zero, List.drop_zero, Nat.zero_add, List.take_length] at hown
    let opened (position : Nat) (file : Text) : Agent N :=
      { agent.setPhase index (.opened cfg position) with file := file }
    have hphaseOpened : ∀ position file,
        (opened position file).phase? index = some (.opened cfg position) :=
      fun position _ => phase?_setPhase_self agent _ hphase
    have hmove : ∀ position file phase, (opened position file).setPhase index phase =
        { agent.setPhase index phase with file := file } := by
      intro position file phase
      have htasks := congrArg Agent.tasks
        (agent.setPhase_setPhase index (.opened cfg position) phase)
      exact congrArg (Agent.mk agent.conf file) htasks
    have hopen : agent.step (.openFile index) = some (opened 0 []) := by
      simp only [Agent.step, hphase]
      rfl
    have hwrite : (opened 0 []).step (.writeBytes index cfg.length) =
        some (opened cfg.length cfg) := by
      simp only [Agent.step, hphaseOpened, Nat.zero_add, hcfg, le_refl, and_self, if_true, hmove]
      rw [List.drop_zero, List.take_length]
      exact congrArg (fun file => some (opened cfg.length file)) hbytes
    have hclose : (opened cfg.length cfg).step (.closeFile index) =
        some { agent.setPhase index .closed with file := cfg } := by
      simp only [Agent.step, hphaseOpened, if_true, hmove]
    refine ⟨cfg.length, ?_⟩
    rw [run, runSteps_cons, hopen, Option.bind_some, runSteps_cons, hwrite, Option.bind_some,
      runSteps_cons, hclose, Option.bind_some, runSteps_nil]
  next => cases h

/-- A configuration seen by a later call is what further calls made of the
configuration that an earlier call left. -/
theorem confAt_later (conf : Conf N) (agent : Agent N) {index writer : Nat}
    (h : index ≤ writer) :
    ∃ later, confAt conf agent writer = execAll (confAt conf agent index) later := by
  refine ⟨(agent.calls.take (writer + 1)).drop (index + 1), ?_⟩
  unfold confAt
  rw [← execAll_append]
  congr 1
  have htake : agent.calls.take (index + 1) = (agent.calls.take (writer + 1)).take (index + 1) := by
    rw [List.take_take, Nat.min_eq_left (by omega)]
  rw [htake, List.take_append_drop]

/-- Two calls arrive, and the first one writes its text and closes the file. -/
def overlappingSteps (count : Nat) : List (Step Int) :=
  [.arrive (.forward "web" 80 8001), .arrive (.forward "api" 81 9001), .openFile 0,
    .writeBytes 0 count, .closeFile 0]

theorem overlappingSteps_run : ∃ (count : Nat) (cfg : Text) (written : Agent Int),
    (idle emptyConf []).run (overlappingSteps count) = some written ∧
      written.phase? 0 = some .closed ∧ written.phase? 1 = some (.writing cfg) := by
  obtain ⟨ready, first, second, hready, hfirst, hsecond⟩ :
      ∃ (ready : Agent Int) (first second : Text), (idle emptyConf []).run
        [.arrive (.forward "web" 80 8001), .arrive (.forward "api" 81 9001)] = some ready ∧
        ready.phase? 0 = some (.writing first) ∧ ready.phase? 1 = some (.writing second) :=
    ⟨_, _, _, rfl, rfl, rfl⟩
  let written : Agent Int := { ready.setPhase 0 .closed with file := first }
  have hwhole : ready.step (.writeFile 0) = some written := by
    simp only [Agent.step, hfirst, written]
  obtain ⟨count, hwrite⟩ := writeFile_eq_run ((consistent_idle emptyConf []).run hready) hwhole
  refine ⟨count, second, written, ?_, phase?_setPhase_self ready _ hfirst, ?_⟩
  · exact (runSteps_append _ _ [_, _] _).trans
      (Option.bind_eq_some_iff.mpr ⟨ready, hready, hwrite⟩)
  · rw [← hsecond]
    exact phase?_setPhase_of_ne ready .closed (by decide)

/-- A signal finds a complete file if the call that opened it last is the
signalling call or a later one, has ended its write, and no other call has
touched the file since it was opened. The file is then the rendering of a
configuration that already contains the effect of the signalling call. -/
theorem signal_on_complete_file (conf : Conf N) (file : Text) (before during : List (Step N))
    (index writer : Nat) (agent signalled : Agent N)
    (hrun : (idle conf file).run (before ++ .openFile writer :: during) = some agent)
    (hsignal : agent.step (.reload index true) = some signalled)
    (halone : ∀ step ∈ during, step.touches? = none ∨ step.touches? = some writer)
    (hended : agent.writeEnded writer) (hlater : index ≤ writer) :
    render (confAt conf agent writer) = .ok agent.file ∧
      index < agent.calls.length ∧
      ∃ later, confAt conf agent writer = execAll (confAt conf agent index) later := by
  refine ⟨file_of_last_opened hrun halone hended, ?_, confAt_later conf agent hlater⟩
  simp only [Agent.step] at hsignal
  split at hsignal
  next hphase => exact phase?_lt hphase
  next => cases hsignal

/-- The first of two overlapping calls signals after the second one has written
its text. -/
theorem signal_on_complete_file_overlapping : ∃ (first second : Nat)
    (agent signalled : Agent Int),
    (idle emptyConf []).run (overlappingSteps first ++
      .openFile 1 :: [.writeBytes 1 second, .closeFile 1]) = some agent ∧
    agent.step (.reload 0 true) = some signalled ∧
    render (confAt emptyConf agent 1) = .ok agent.file ∧
    ∃ later, confAt emptyConf agent 1 = execAll (confAt emptyConf agent 0) later := by
  obtain ⟨first, cfg, written, hwritten, hclosed, hpending⟩ := overlappingSteps_run
  let agent : Agent Int := { written.setPhase 1 .closed with file := cfg }
  have hwhole : written.step (.writeFile 1) = some agent := by
    simp only [Agent.step, hpending, agent]
  obtain ⟨second, hwrite⟩ :=
    writeFile_eq_run ((consistent_idle emptyConf []).run hwritten) hwhole
  have hrun : (idle emptyConf []).run (overlappingSteps first ++
      .openFile 1 :: [.writeBytes 1 second, .closeFile 1]) = some agent := by
    rw [run, runSteps_append]
    exact Option.bind_eq_some_iff.mpr ⟨written, hwritten, hwrite⟩
  have hfirst : agent.phase? 0 = some .closed := by
    rw [← hclosed]
    exact phase?_setPhase_of_ne written .closed (by decide)
  have hsecond : agent.phase? 1 = some .closed := phase?_setPhase_self written _ hpending
  have hsignal : agent.step (.reload 0 true) = some (agent.setPhase 0 (.replying none)) := by
    simp only [Agent.step, hfirst, if_true]
  obtain ⟨hrender, _, hlater⟩ := signal_on_complete_file emptyConf [] _ _ 0 1 _ _ hrun hsignal
    (by simp [Step.touches?]) (Or.inl hsecond) (by decide)
  exact ⟨first, second, agent, _, hrun, hsignal, hrender, hlater⟩

/-- A second call truncates the file before the first one signals. -/
theorem torn_file_signalled : ∃ (count : Nat) (agent signalled : Agent Int),
    (idle emptyConf []).run [.arrive (.forward "web" 80 8001), .arrive (.forward "api" 81 9001),
      .openFile 0, .writeBytes 0 count, .closeFile 0, .openFile 1] = some agent ∧
    agent.step (.reload 0 true) = some signalled ∧
    ∀ conf : Conf Int, render conf ≠ .ok agent.file := by
  obtain ⟨count, other, written, hwritten, hclosed, hpending⟩ := overlappingSteps_run
  -- the second call truncates the file between the first call's close and its reload
  let torn : Agent Int := { written.setPhase 1 (.opened other 0) with file := [] }
  have hopen : written.run [.openFile 1] = some torn := by
    simp only [run, runSteps_cons, Agent.step, hpending, Option.bind_some, runSteps_nil, torn]
  have hkept : torn.phase? 0 = some .closed := by
    rw [← hclosed]
    exact phase?_setPhase_of_ne written (.opened other 0) (by decide)
  refine ⟨count, torn, torn.setPhase 0 (.replying none), ?_, ?_, ?_⟩
  · exact (runSteps_append _ _ (overlappingSteps count) _).trans
      (Option.bind_eq_some_iff.mpr ⟨written, hwritten, hopen⟩)
  · simp only [Agent.step, hkept, if_true]
  · intro conf hrender
    exact render_ne_nil hrender rfl

end Agent

end NginxInterface
