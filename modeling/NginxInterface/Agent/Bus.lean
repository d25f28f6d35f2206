import NginxInterface.Agent.Failure
import NginxInterface.Routing.Keys
import NginxInterface.Routing.Throws

/-! # Requests on the bus

`launchInterface` exposes `addPortRouting` and `deletePortRouting` to other processes. A
handler takes the arguments out of the payload, whatever that is, and passes them to the
controller with a callback that answers the request. An exception in the handler answers
nothing. The interface is launched when discovery is ready, so that `conf_file` is known
to every request and `fs.writeFile` reports its failures to its callback.

The bus adds to the agent what the handlers did with the requests and a log of the
callbacks that have run. It also keeps the entries that requests store on functions of
`Object.prototype`, which no look-up in a table finds. An entry on `Object.prototype`
itself, or in an option of the constructor, can be found by any look-up: after such a
request the next ones may throw or go on, and leave any configuration behind.
-/

namespace NginxInterface

open Foundation Js

variable {N : Type} [Number N]

/-- A request with its payload. -/
inductive BusRequest (N : Type) where
  | addPortRouting (data : Value N)
  | deletePortRouting (data : Value N)

/-- The arguments of a request as the handler and the operation take them out of the
payload, up to the look-up of the application. -/
def BusRequest.read : BusRequest N → Except Fault (KeyedCall N)
  | .addPortRouting data => do
      let appName ← data.field "app_name"
      let opts ← data.field "opts"
      let inPort ← opts.field "in_port"
      let outPort ← opts.field "out_port"
      let lbMode ← opts.field "lb_mode"
      let mode ← opts.field "mode"
      let mode ← (mode.or (.str "http")).propertyKey
      -- a truthy mode such as `[]` can spell the empty key, and `current_conf['']` is undefined
      if mode = "" then throw .typeError
      let appName ← appName.propertyKey
      return .addPortRouting appName
        { inPort := inPort, outPort := outPort, lbMode := lbMode, mode := mode }
  | .deletePortRouting data => do
      let appName ← data.field "app_name"
      let port ← data.field "port"
      -- both are printed on the console first
      let appName ← appName.propertyKey
      let _ ← port.toText
      return .deletePortRouting appName port

/-- Where a call comes from: a request on the bus, or another user of the controller. -/
inductive Origin (N : Type) where
  | bus (request : BusRequest N)
  | library (call : KeyedCall N)

def Origin.read : Origin N → Except Fault (KeyedCall N)
  | .bus request => request.read
  | .library call => .ok call

/-- What a handler did: it threw, or it left the request to the call with this index. -/
inductive Served where
  | threw (fault : Fault)
  | passed (index : Nat)

structure Bus (N : Type) where
  agent : Agent N
  /-- The entries that calls have stored on inherited objects, the latest first. -/
  strays : List (Stray N)
  /-- A call has stored its entry where any look-up may find it. -/
  polluted : Bool
  served : List Served
  /-- The callbacks that have run, each with the index of its call and its `err`. -/
  replies : List (Nat × Option Fault)

inductive BusStep (N : Type) where
  | arrive (origin : Origin N)
  /-- The arrival of a call whose look-ups are not followed, with what it leaves behind. -/
  | stray (origin : Origin N) (conf : Conf N) (task : Task N)
  /-- A later step of a call. -/
  | agent (step : Step N)

def BusStep.request? : BusStep N → Option (BusRequest N)
  | .arrive (.bus request) => some request
  | .stray (.bus request) _ _ => some request
  | _ => none

/-- The callback of the call has run with this error. -/
def Phase.replies : Phase → List (Option Fault)
  | .replied err => [err]
  | _ => []

/-- The call threw, or rendering has given a text, or there was an error. -/
def Phase.arrived : Phase → Bool
  | .threw _ => true
  | .writing _ => true
  | .replying err => err.isSome
  | .replied err => err.isSome
  | _ => false

/-- The callbacks that run in a later step of a call. -/
def Agent.callbacks (agent : Agent N) : Step N → List (Nat × Option Fault)
  | .failFile index => [(index, some .system)]
  | .reload index delivered => if delivered then [] else [(index, some .system)]
  | .reply index =>
      match agent.phase? index with
      | some (.replying err) => [(index, err)]
      | _ => []
  | _ => []

/-- The call as the agent remembers it. -/
def KeyedCall.remembered (call : KeyedCall N) : Call N :=
  call.inMode (if call.mode = Mode.key .stream then .stream else .http)

/-- What the synchronous part of a call leaves behind. -/
structure Left (N : Type) where
  conf : Conf N
  strays : List (Stray N)
  outcome : Outcome

namespace Bus

def idle (debugMode statusPort : Value N) (file : Text) : Bus N where
  agent := .idle (.initial debugMode statusPort) file
  strays := []
  polluted := false
  served := []
  replies := []

/-- The entry that a call has stored on an inherited object. -/
def stray? (bus : Bus N) (object : Builtin) (appName : String) : Option (Entry N) :=
  (bus.strays.find? fun stray => stray.object = object ∧ stray.name = appName).map Stray.entry

def changeStray (bus : Bus N) (object : Builtin) (appName : String) :
    Change N → List (Stray N)
  | .store entry => ⟨object, appName, entry⟩ :: bus.strays
  | _ => bus.strays

/-- The synchronous part of a call up to `updateConfiguration`. On an inherited object a
call finds the entries that calls have stored there. -/
def exec (bus : Bus N) (call : KeyedCall N) : Option (Left N) :=
  match call.resolve bus.agent.conf with
  | .throws => some ⟨bus.agent.conf, bus.strays, .threw .typeError⟩
  | .call routing =>
      let result := routing.exec bus.agent.conf
      some ⟨result.1, bus.strays, result.2⟩
  | .strays object =>
      let result := (call.inMode .http).change (.of (bus.stray? object call.appName))
      some ⟨bus.agent.conf, bus.changeStray object call.appName result.1, result.2⟩
  | .unfollowed => none

def record (bus : Bus N) (served : Served) : Origin N → List Served
  | .bus _ => bus.served ++ [served]
  | .library _ => bus.served

/-- A call leaves a configuration behind, and a task unless it threw. -/
def leave (bus : Bus N) (origin : Origin N) (conf : Conf N) (task : Task N) : Bus N :=
  match task.phase with
  | .threw fault =>
      { bus with
        agent := { bus.agent with conf := conf }
        served := bus.record (.threw fault) origin }
  | phase =>
      { bus with
        agent := { bus.agent with conf := conf, tasks := bus.agent.tasks ++ [task] }
        served := bus.record (.passed bus.agent.tasks.length) origin
        replies := bus.replies ++ phase.replies.map fun err => (bus.agent.tasks.length, err) }

/-- The call stores its entry on `Object.prototype`. -/
def pollutes (bus : Bus N) (call : KeyedCall N) : Bool :=
  match call.resolve bus.agent.conf with
  | .strays .objectPrototype => true
  | _ => false

/-- A call that is not followed may end up in this phase. The first one on
`Object.prototype` still throws exactly where it would throw in a table; what the template
makes of the polluted objects is open. -/
def mayLeave (bus : Bus N) (origin : Origin N) (phase : Phase) : Bool :=
  phase.arrived &&
    (bus.polluted ||
      match origin.read with
      | .error _ => false
      | .ok call =>
          match bus.exec call with
          | none => true
          | some left => bus.pollutes call && phase.isThrow == left.outcome.isThrow)

/-- A step of the agent, with the callbacks that run in it. -/
def advance (bus : Bus N) (step : Step N) : Option (Bus N) :=
  (bus.agent.step step).map fun next =>
    { bus with agent := next, replies := bus.replies ++ bus.agent.callbacks step }

def step (bus : Bus N) : BusStep N → Option (Bus N)
  | .arrive origin =>
      if bus.polluted then none
      else
        match origin.read with
        | .error fault => some { bus with served := bus.record (.threw fault) origin }
        | .ok call =>
            if bus.pollutes call then none
            else
              (bus.exec call).map fun left =>
                { bus.leave origin left.conf
                    ⟨call.remembered, Agent.arrivalPhase left.conf left.outcome⟩ with
                  strays := left.strays }
  | .stray origin conf task =>
      if bus.mayLeave origin task.phase then
        some { bus.leave origin conf task with polluted := true }
      else none
  -- calls arrive by the steps above
  | .agent (.arrive _) => none
  | .agent step => bus.advance step

def run (bus : Bus N) (steps : List (BusStep N)) : Option (Bus N) := runSteps step bus steps

/-- What the callback of a call has been given, once for each time it ran. -/
def repliesTo (bus : Bus N) (index : Nat) : List (Option Fault) :=
  (bus.replies.filter fun reply => reply.1 = index).map Prod.snd

end Bus

/-! ## What a step does to a call -/

/-- The system fails a call in this step of the bus. -/
def BusStep.failsAt (index : Nat) : BusStep N → Bool
  | .agent step => step.failsAt index
  | _ => false

namespace Agent

/-- What the callback of a call has been given by now. -/
def repliesAt (agent : Agent N) (index : Nat) : List (Option Fault) :=
  ((agent.phase? index).map Phase.replies).getD []

/-- What the callback of a call is given in a step. -/
def callbacksTo (agent : Agent N) (step : Step N) (index : Nat) : List (Option Fault) :=
  ((agent.callbacks step).filter fun reply => reply.1 = index).map Prod.snd

/-- The entries of one call in a log that has them for one call only. -/
theorem filter_owner (owner index : Nat) (errs : List (Option Fault)) :
    ((errs.map fun err => (owner, err)).filter fun reply => reply.1 = index).map Prod.snd =
      if index = owner then errs else [] := by
  rw [List.filter_map, List.map_map]
  split
  next heq =>
    subst heq
    rw [List.filter_eq_self.mpr (by simp)]
    exact List.map_id errs
  next hne =>
    rw [List.filter_eq_nil_iff.mpr (by simpa [eq_comm] using fun _ _ => hne)]
    rfl

/-- A step that is not an arrival moves one call that has not answered, and runs its
callback exactly if the call ends there. -/
theorem step_moves {agent next : Agent N} {step : Step N} (h : agent.step step = some next)
    (hstep : ∀ call, step ≠ .arrive call) :
    ∃ owner old new file, agent.phase? owner = some old ∧
      next = { agent.setPhase owner new with file := file } ∧ old.replies = [] ∧
      agent.callbacks step = new.replies.map fun err => (owner, err) := by
  obtain ⟨call, rfl, _⟩ | ⟨owner, cfg, rfl, howner, rfl⟩ |
    ⟨owner, count, cfg, position, rfl, howner, _, rfl⟩ | ⟨owner, cfg, rfl, howner, rfl⟩ |
    ⟨owner, cfg, rfl, howner, rfl⟩ | ⟨owner, rfl, ⟨cfg, howner | ⟨position, howner⟩⟩, rfl⟩ |
    ⟨owner, delivered, rfl, howner, rfl⟩ | ⟨owner, err, rfl, howner, rfl⟩ := step_cases h
  · exact absurd rfl (hstep call)
  · exact ⟨owner, _, _, _, howner, rfl, rfl, rfl⟩
  · exact ⟨owner, _, _, _, howner, rfl, rfl, rfl⟩
  · exact ⟨owner, _, _, _, howner, rfl, rfl, rfl⟩
  · exact ⟨owner, _, _, _, howner, rfl, rfl, rfl⟩
  · exact ⟨owner, _, _, _, howner, rfl, rfl, rfl⟩
  · exact ⟨owner, _, _, _, howner, rfl, rfl, rfl⟩
  · refine ⟨owner, _, _, _, howner, rfl, rfl, ?_⟩
    cases delivered <;> rfl
  · refine ⟨owner, _, _, _, howner, rfl, rfl, ?_⟩
    simp only [callbacks, howner]
    rfl

/-- The answers of a call are those it had and those of the callbacks that run. -/
theorem step_replies {agent next : Agent N} {step : Step N} (h : agent.step step = some next)
    (hstep : ∀ call, step ≠ .arrive call) (index : Nat) :
    next.repliesAt index = agent.repliesAt index ++ agent.callbacksTo step index := by
  obtain ⟨owner, old, new, file, hold, rfl, hunanswered, hcallbacks⟩ := step_moves h hstep
  rw [callbacksTo, hcallbacks, filter_owner]
  change (((agent.setPhase owner new).phase? index).map Phase.replies).getD [] = _
  split
  next heq =>
    subst heq
    rw [phase?_setPhase_self agent new hold, repliesAt, hold, Option.map_some,
      Option.map_some, Option.getD_some, Option.getD_some, hunanswered, List.nil_append]
  next hne => rw [phase?_setPhase_of_ne agent new hne, List.append_nil, repliesAt]

/-- A call has failed after a step exactly if it had failed before or the system fails it
in the step. -/
theorem step_phase {agent next : Agent N} {step : Step N} {index : Nat} {phase : Phase}
    (h : agent.step step = some next) (hphase : agent.phase? index = some phase) :
    ∃ after, next.phase? index = some after ∧ after.isThrow = phase.isThrow ∧
      after.failure?.isSome = (phase.failure?.isSome || step.failsAt index) := by
  obtain ⟨after, hafter, hthrow, hfailure⟩ := step_failure h hphase
  refine ⟨after, hafter, hthrow, ?_⟩
  rcases hfailure with ⟨hsame, hfails⟩ | ⟨hnone, hsystem, hfails⟩
  · rw [hsame, hfails, Bool.or_false]
  · rw [hnone, hsystem, hfails]
    rfl

end Agent

/-! ## What a step does to the bus -/

/-- What is recorded of a handler whose call arrives in this phase. -/
def Phase.served (index : Nat) : Phase → Served
  | .threw fault => .threw fault
  | _ => .passed index

namespace Bus

/-- A call has arrived in this phase: it threw and added nothing, or it is the last of the
tasks, and its callback has run if the phase says so. -/
structure Arrives (bus next : Bus N) (origin : Origin N) (phase : Phase) : Prop where
  served : next.served = bus.record (phase.served bus.agent.calls.length) origin
  replies : next.replies =
    bus.replies ++ phase.replies.map fun err => (bus.agent.calls.length, err)
  agent : ∃ conf added, next.agent =
    { bus.agent with conf := conf, tasks := bus.agent.tasks ++ added } ∧
      added.map Task.phase = if phase.isThrow then [] else [phase]

section Arrivals

omit [Number N]

variable {bus next : Bus N} {origin : Origin N} {phase : Phase}

theorem leave_arrives (bus : Bus N) (origin : Origin N) (conf : Conf N) (task : Task N) :
    bus.Arrives (bus.leave origin conf task) origin task.phase := by
  have hlength : bus.agent.calls.length = bus.agent.tasks.length := by
    rw [Agent.calls, List.length_map]
  rcases task with ⟨call, phase⟩
  cases phase with
  | threw fault => exact ⟨rfl, (List.append_nil _).symm, conf, [], by simp [leave], rfl⟩
  | _ => exact ⟨by rw [hlength]; rfl, by rw [hlength]; rfl, conf, [⟨call, _⟩], rfl, rfl⟩

theorem leave_conf (bus : Bus N) (origin : Origin N) (conf : Conf N) (task : Task N) :
    (bus.leave origin conf task).agent.conf = conf := by
  unfold leave
  split <;> rfl

/-- The phases of the other calls stay. -/
theorem Arrives.phase? (h : bus.Arrives next origin phase) (index : Nat) :
    next.agent.phase? index =
      if phase.isThrow = false ∧ index = bus.agent.calls.length then some phase
      else bus.agent.phase? index := by
  obtain ⟨conf, added, hagent, hadded⟩ := h.agent
  cases hthrow : phase.isThrow with
  | true =>
      rw [hthrow, if_pos rfl, List.map_eq_nil_iff] at hadded
      rw [hagent, hadded, if_neg (by simp), List.append_nil]
      rfl
  | false =>
      rw [hthrow, if_neg (by simp)] at hadded
      obtain ⟨task, rfl, hphase⟩ := List.map_eq_singleton_iff.mp hadded
      rw [hagent, Agent.phase?_arrive, hphase]
      simp

theorem Arrives.repliesAt (h : bus.Arrives next origin phase) (index : Nat) :
    next.agent.repliesAt index = bus.agent.repliesAt index ++
      if index = bus.agent.calls.length then phase.replies else [] := by
  have hnone : bus.agent.phase? bus.agent.calls.length = none := by
    by_contra hphase
    obtain ⟨old, hsome⟩ := Option.ne_none_iff_exists'.mp hphase
    exact Nat.lt_irrefl _ (Agent.phase?_lt hsome)
  rw [Agent.repliesAt, h.phase? index]
  by_cases hindex : index = bus.agent.calls.length
  · subst hindex
    cases phase <;> simp [Phase.isThrow, Phase.replies, Agent.repliesAt, hnone]
  · simp [hindex, Agent.repliesAt]

/-- An arrival fails no other call. -/
theorem Arrives.keeps (h : bus.Arrives next origin phase) {index : Nat} {old : Phase}
    (hold : bus.agent.phase? index = some old) : next.agent.phase? index = some old := by
  rw [h.phase?, if_neg fun heq => Nat.ne_of_lt (Agent.phase?_lt hold) heq.2, hold]

end Arrivals

section Steps

variable {bus next : Bus N} {label : BusStep N}

/-- A step of the bus is a later step of a call, or the arrival of one. -/
theorem step_cases (h : bus.step label = some next) :
    (∃ move, label = .agent move ∧ (∀ call, move ≠ .arrive call) ∧
      bus.agent.step move = some next.agent ∧
      next.replies = bus.replies ++ bus.agent.callbacks move ∧ next.polluted = bus.polluted) ∨
    (∃ origin phase, label = .arrive origin ∧ bus.Arrives next origin phase ∧
      bus.polluted = false ∧ next.polluted = false ∧
      ((∃ fault, origin.read = .error fault ∧ phase = .threw fault ∧ next.agent = bus.agent) ∨
        ∃ call left, origin.read = .ok call ∧ bus.pollutes call = false ∧
          bus.exec call = some left ∧ next.agent.conf = left.conf ∧
          phase = Agent.arrivalPhase left.conf left.outcome)) ∨
    ∃ origin conf task, label = .stray origin conf task ∧ bus.Arrives next origin task.phase ∧
      bus.mayLeave origin task.phase = true ∧ next.polluted = true := by
  cases label with
  | arrive origin =>
      simp only [Bus.step] at h
      split at h
      next => cases h
      next hclean =>
        have hpolluted : bus.polluted = false := eq_false_of_ne_true hclean
        split at h
        next fault hread =>
          cases h
          refine Or.inr (Or.inl ⟨origin, .threw fault, rfl, ?_, hpolluted, hpolluted,
            Or.inl ⟨fault, hread, rfl, rfl⟩⟩)
          exact ⟨rfl, (List.append_nil _).symm, bus.agent.conf, [], by simp, rfl⟩
        next call hread =>
          split at h
          next => cases h
          next hpollutes =>
            obtain ⟨left, hleft, rfl⟩ := Option.map_eq_some_iff.mp h
            obtain ⟨hserved, hreplies, hagent⟩ := bus.leave_arrives origin left.conf
              ⟨call.remembered, Agent.arrivalPhase left.conf left.outcome⟩
            refine Or.inr (Or.inl ⟨origin, _, rfl, ⟨hserved, hreplies, hagent⟩, hpolluted, ?_,
              Or.inr ⟨call, left, hread, eq_false_of_ne_true hpollutes, hleft,
                bus.leave_conf _ _ _, rfl⟩⟩)
            rw [← hpolluted]
            change (bus.leave _ _ _).polluted = _
            unfold leave
            split <;> rfl
  | stray origin conf task =>
      simp only [Bus.step] at h
      split at h
      next hmay =>
        cases h
        obtain ⟨hserved, hreplies, hagent⟩ := bus.leave_arrives origin conf task
        exact Or.inr (Or.inr ⟨origin, conf, task, rfl, ⟨hserved, hreplies, hagent⟩, hmay, rfl⟩)
      next => cases h
  | agent move =>
      cases move with
      | arrive call => cases h
      | _ =>
          obtain ⟨agent, hagent, rfl⟩ := Option.map_eq_some_iff.mp h
          exact Or.inl ⟨_, rfl, fun _ => by simp, hagent, rfl, rfl⟩

/-- The log has what the callbacks of the calls have been given, and nothing else. -/
def Logged (bus : Bus N) : Prop := ∀ index, bus.repliesTo index = bus.agent.repliesAt index

theorem logged_idle (debugMode statusPort : Value N) (file : Text) :
    (idle debugMode statusPort file).Logged := fun _ => rfl

omit [Number N] in
theorem repliesTo_append {log : List (Nat × Option Fault)} (index : Nat)
    (h : next.replies = bus.replies ++ log) :
    next.repliesTo index =
      bus.repliesTo index ++ (log.filter fun reply => reply.1 = index).map Prod.snd := by
  rw [repliesTo, h, List.filter_append, List.map_append]
  rfl

omit [Number N] in
theorem Logged.arrives (hbus : bus.Logged) {origin : Origin N} {phase : Phase}
    (h : bus.Arrives next origin phase) : next.Logged := by
  intro index
  rw [repliesTo_append index h.replies, Agent.filter_owner, hbus index, h.repliesAt index]

theorem Logged.step (hbus : bus.Logged) (h : bus.step label = some next) : next.Logged := by
  obtain ⟨move, -, hmove, hagent, hreplies, -⟩ | ⟨origin, phase, -, harrives, -⟩ |
    ⟨origin, conf, task, -, harrives, -⟩ := step_cases h
  · intro index
    rw [repliesTo_append index hreplies, hbus index, Agent.step_replies hagent hmove index]
    rfl
  · exact hbus.arrives harrives
  · exact hbus.arrives harrives

theorem Logged.run {bus final : Bus N} {steps : List (BusStep N)} (hbus : bus.Logged)
    (h : bus.run steps = some final) : final.Logged :=
  runSteps_invariant Bus.step (fun _ => True) Logged
    (fun _ _ _ _ hstate hnext => hstate.step hnext) (fun _ _ => trivial) hbus h

theorem step_phase {index : Nat} {phase : Phase} (h : bus.step label = some next)
    (hphase : bus.agent.phase? index = some phase) :
    ∃ after, next.agent.phase? index = some after ∧ after.isThrow = phase.isThrow ∧
      after.failure?.isSome = (phase.failure?.isSome || label.failsAt index) := by
  obtain ⟨move, rfl, -, hagent, -⟩ | ⟨origin, _, rfl, harrives, -⟩ |
    ⟨origin, conf, task, rfl, harrives, -⟩ := step_cases h
  · exact Agent.step_phase hagent hphase
  · exact ⟨phase, harrives.keeps hphase, rfl, (Bool.or_false _).symm⟩
  · exact ⟨phase, harrives.keeps hphase, rfl, (Bool.or_false _).symm⟩

/-- A call that has arrived has failed at the end of a run exactly if it had failed
before or the system has failed it since. -/
theorem run_phase {final : Bus N} {steps : List (BusStep N)} {index : Nat} {phase : Phase}
    (h : bus.run steps = some final) (hphase : bus.agent.phase? index = some phase) :
    ∃ after, final.agent.phase? index = some after ∧ after.isThrow = phase.isThrow ∧
      after.failure?.isSome =
        (phase.failure?.isSome || steps.any fun step => step.failsAt index) := by
  induction steps generalizing bus phase with
  | nil =>
      cases h
      exact ⟨phase, hphase, rfl, (Bool.or_false _).symm⟩
  | cons step rest ih =>
      obtain ⟨next, hnext, hrest⟩ := runSteps_cons_eq_some _ h
      obtain ⟨middle, hmiddle, hthrow, hfailure⟩ := step_phase hnext hphase
      obtain ⟨after, hafter, hthrowRest, hfailureRest⟩ := ih hrest hmiddle
      refine ⟨after, hafter, hthrowRest.trans hthrow, ?_⟩
      rw [hfailureRest, hfailure, List.any_cons, Bool.or_assoc]

/-- What a call leaves in the tables has no entry under a name of `Object.prototype`. -/
theorem exec_unshadowed {call : KeyedCall N} {left : Left N} (hbus : bus.agent.conf.Unshadowed)
    (h : bus.exec call = some left) : left.conf.Unshadowed := by
  unfold exec at h
  split at h
  · cases h
    exact hbus
  next routing _ =>
    cases h
    exact hbus.exec routing
  · cases h
    exact hbus
  · cases h

/-- As long as no look-up is open, the tables have no own entry under a name of
`Object.prototype`. -/
theorem run_unshadowed {debugMode statusPort : Value N} {file : Text} {steps : List (BusStep N)}
    (h : (idle debugMode statusPort file).run steps = some bus) :
    bus.polluted = false → bus.agent.conf.Unshadowed := by
  refine runSteps_invariant Bus.step (fun _ => True)
    (fun bus => bus.polluted = false → bus.agent.conf.Unshadowed) ?_ (fun _ _ => trivial) ?_ h
  · intro before step after _ hbefore hstep hclean
    obtain ⟨move, -, hmove, hagent, -, hpolluted⟩ | ⟨origin, phase, -, -, hpolluted, -, hread⟩ |
      ⟨origin, conf, task, -, -, -, hpolluted⟩ := step_cases hstep
    · obtain ⟨owner, old, new, file, -, hnext, -⟩ := Agent.step_moves hagent hmove
      rw [hnext]
      exact hbefore (hpolluted ▸ hclean)
    · obtain ⟨fault, -, -, hagent⟩ | ⟨call, left, -, -, hexec, hconf, -⟩ := hread
      · rw [hagent]
        exact hbefore hpolluted
      · rw [hconf]
        exact exec_unshadowed (hbefore hpolluted) hexec
    · rw [hpolluted] at hclean
      cases hclean
  · exact fun _ mode appName _ => Conf.appEntry_initial debugMode statusPort mode appName

end Steps

end Bus

/-! ## The arguments of a request -/

namespace BusRequest

theorem read_addPortRouting {data : Value N} {call : KeyedCall N} :
    (addPortRouting data).read = .ok call ↔
      data.nullish = false ∧ (data.property "opts").nullish = false ∧
      ∃ mode appName,
        (((data.property "opts").property "mode").or (.str "http")).propertyKey = .ok mode ∧
        mode ≠ "" ∧ (data.property "app_name").propertyKey = .ok appName ∧
        call = .addPortRouting appName
          { inPort := (data.property "opts").property "in_port",
            outPort := (data.property "opts").property "out_port",
            lbMode := (data.property "opts").property "lb_mode", mode := mode } := by
  cases hdata : data.nullish with
  | true => simp [read, Value.field_of_nullish hdata, bind, Except.bind]
  | false =>
      have hdataField := Value.field_of_not_nullish hdata
      cases hopts : (data.property "opts").nullish with
      | true => simp [read, hdataField, Value.field_of_nullish hopts, bind, Except.bind]
      | false =>
          have hoptsField := Value.field_of_not_nullish hopts
          simp only [read, hdataField, hoptsField, bind, Except.bind]
          cases (((data.property "opts").property "mode").or (.str "http")).propertyKey with
          | error fault => simp
          | ok mode =>
              by_cases hmode : mode = ""
              · simp [hmode, throw, throwThe, MonadExceptOf.throw]
              · cases (data.property "app_name").propertyKey with
                | error fault => simp [hmode]
                | ok appName => simp [hmode, pure, Except.pure, eq_comm]

theorem read_deletePortRouting {data : Value N} {call : KeyedCall N} :
    (deletePortRouting data).read = .ok call ↔
      data.nullish = false ∧ (data.property "port").printable = true ∧
      ∃ appName, (data.property "app_name").propertyKey = .ok appName ∧
        call = .deletePortRouting appName (data.property "port") := by
  cases hdata : data.nullish with
  | true => simp [read, Value.field_of_nullish hdata, bind, Except.bind]
  | false =>
      have hdataField := Value.field_of_not_nullish hdata
      simp only [read, hdataField, bind, Except.bind]
      cases (data.property "app_name").propertyKey with
      | error fault => simp
      | ok appName =>
          cases htext : (data.property "port").toText with
          | error fault => simp [htext, Value.printable]
          | ok text => simp [htext, Value.printable, pure, Except.pure, eq_comm]

end BusRequest

/-! ## Which requests are answered -/

namespace Bus

/-- Nothing throws in the addition of a port to the application that a mode and a name
lead to, in a table or on an inherited object. -/
def CanAdd (bus : Bus N) (mode appName : String) (inPort outPort : Value N) : Prop :=
  (∃ table : Mode, mode = table.key ∧ appName ∉ objectPrototypeNames ∧
    CanAddTo (bus.agent.conf.appEntry table appName) inPort outPort) ∨
  (mode ∈ objectPrototypeNames ∧ appName ∉ (inheritedObject mode).members ∧
    CanAddTo (bus.stray? (inheritedObject mode) appName) inPort outPort)

/-- The look-ups of the request are followed: no call has stored anything where they might
find it, and its mode does not lead to an option that is an object. -/
def Follows (bus : Bus N) (request : BusRequest N) : Prop :=
  bus.polluted = false ∧
    ∀ call, request.read = .ok call → call.resolve bus.agent.conf ≠ .unfollowed

/-- A call that looks up a name of `Object.prototype` in a table throws. -/
theorem exec_isThrow {conf : Conf N} (hconf : conf.Unshadowed) {routing : Call N}
    (hname : routing.appName ∈ objectPrototypeNames)
    (hchange : (routing.change .inherited).2.isThrow = true) :
    (routing.exec conf).2.isThrow = true := by
  rw [Call.exec_eq, Conf.lookup_inherited (hconf _ _ hname) hname]
  exact hchange

/-- The synchronous part of a call ends without an exception. -/
def Accepts (bus : Bus N) (call : KeyedCall N) : Prop :=
  ∃ left, bus.exec call = some left ∧ left.outcome.isThrow = false

theorem accepts_of_resolve_call {bus : Bus N} {call : KeyedCall N} {routing : Call N}
    (h : call.resolve bus.agent.conf = .call routing) :
    bus.Accepts call ↔ (routing.exec bus.agent.conf).2.isThrow = false := by
  simp [Accepts, exec, h]

theorem accepts_addPortRouting {bus : Bus N} (hbus : bus.agent.conf.Unshadowed)
    (appName : String) {opts : KeyedOpts N} (hmode : opts.mode ≠ "") :
    bus.Accepts (.addPortRouting appName opts) ↔
      bus.CanAdd opts.mode appName opts.inPort opts.outPort := by
  have hcall : (KeyedCall.addPortRouting appName opts).mode = opts.mode := if_neg hmode
  obtain ⟨table, hkey, -⟩ | ⟨hname, -⟩ | ⟨hkeys, hname, htarget⟩ :=
    target_cases bus.agent.conf opts.mode
  · -- the call works on a table
    rw [accepts_of_resolve_call (KeyedCall.resolve_key _ (hcall.trans hkey))]
    have hinherited : opts.mode ∉ objectPrototypeNames := hkey ▸ key_not_inherited table
    by_cases happ : appName ∈ objectPrototypeNames
    · have hthrow : (((KeyedCall.addPortRouting appName opts).inMode table).exec
          bus.agent.conf).2.isThrow = true := exec_isThrow hbus happ rfl
      simp [hthrow, CanAdd, happ, hinherited]
    · have hadd : (addPortRouting bus.agent.conf appName (opts.inMode table)).2.isThrow = false ↔
          CanAddTo (bus.agent.conf.appEntry table appName) opts.inPort opts.outPort :=
        addPortRouting_isThrow_iff happ
      refine hadd.trans ⟨fun hcan => Or.inl ⟨table, hkey, happ, hcan⟩, ?_⟩
      rintro (⟨other, hother, -, hcan⟩ | ⟨hmem, -⟩)
      · have hsame : other = table := by
          rw [hkey] at hother
          revert hother
          cases other <;> cases table <;> decide
        exact hsame ▸ hcan
      · exact absurd hmem hinherited
  · -- the call works on an inherited object
    have hkeys : ∀ table : Mode, opts.mode ≠ table.key :=
      fun table heq => key_not_inherited table (heq ▸ hname)
    have hresolve := KeyedCall.resolve_inherited bus.agent.conf (hcall.symm ▸ hname)
    rw [hcall] at hresolve
    by_cases happ : appName ∈ (inheritedObject opts.mode).members
    · have hthrows := hresolve.trans (if_pos happ)
      simp [Accepts, exec, hthrows, Outcome.isThrow, CanAdd, hkeys, happ]
    · have hstrays := hresolve.trans (if_neg happ)
      simp only [Accepts, exec, hstrays, Option.some.injEq, exists_eq_left', CanAdd, hkeys,
        false_and, exists_false, false_or, hname, true_and, happ, not_false_eq_true]
      exact addPortChange_isThrow_iff appName (opts.inMode .http) _
  · -- there is nothing to work on
    refine iff_of_false ?_ ?_
    · rintro ⟨left, hleft, hthrow⟩
      rcases htarget with ⟨value, hvalue⟩ | hmissing
      · cases hprimitive : value.primitive <;>
          simp only [exec, KeyedCall.resolve, hcall, hvalue, hprimitive, if_true, if_false,
            Bool.false_eq_true] at hleft <;>
          cases hleft
        cases hthrow
      · simp only [exec, KeyedCall.resolve, hcall, hmissing] at hleft
        cases hleft
        cases hthrow
    · rintro (⟨table, hkey, -⟩ | ⟨hmem, -⟩)
      · exact hkeys table hkey
      · exact hname hmem

theorem accepts_deletePortRouting {bus : Bus N} (hbus : bus.agent.conf.Unshadowed)
    (appName : String) (port : Value N) :
    bus.Accepts (.deletePortRouting appName port) ↔
      appName ∉ objectPrototypeNames ∧ bus.agent.conf.CanDelete appName port := by
  have hmode : (KeyedCall.deletePortRouting appName port).mode = Mode.key .http := rfl
  rw [accepts_of_resolve_call (KeyedCall.resolve_key _ hmode)]
  by_cases happ : appName ∈ objectPrototypeNames
  · have hthrow : (((KeyedCall.deletePortRouting appName port).inMode .http).exec
        bus.agent.conf).2.isThrow = true := exec_isThrow hbus happ rfl
    simp [hthrow, happ]
  · have hdelete : (deletePortRouting bus.agent.conf appName port).2.isThrow = false ↔
        bus.agent.conf.CanDelete appName port := deletePortRouting_isThrow_iff happ
    exact hdelete.trans (and_iff_right happ).symm

end Bus

namespace BusRequest

/-- The payload and the options are not `null` or missing, the application has a name, and
nothing in the call itself throws. -/
def Answerable (bus : Bus N) : BusRequest N → Prop
  | .addPortRouting data =>
      let opts := data.property "opts"
      data.nullish = false ∧ opts.nullish = false ∧
      ∃ mode appName, ((opts.property "mode").or (.str "http")).propertyKey = .ok mode ∧
        (data.property "app_name").propertyKey = .ok appName ∧
        bus.CanAdd mode appName (opts.property "in_port") (opts.property "out_port")
  | .deletePortRouting data =>
      data.nullish = false ∧ (data.property "port").printable = true ∧
      ∃ appName, (data.property "app_name").propertyKey = .ok appName ∧
        appName ∉ objectPrototypeNames ∧
        bus.agent.conf.CanDelete appName (data.property "port")

theorem answerable_iff {bus : Bus N} (hbus : bus.agent.conf.Unshadowed)
    (request : BusRequest N) :
    request.Answerable bus ↔ ∃ call, request.read = .ok call ∧ bus.Accepts call := by
  cases request with
  | addPortRouting data =>
      constructor
      · rintro ⟨hdata, hopts, mode, appName, hmode, hkey, hadd⟩
        have hne : mode ≠ "" := by
          rintro rfl
          rcases hadd with ⟨_ | _, hempty, -⟩ | ⟨hempty, -⟩
          · exact absurd hempty (by decide)
          · exact absurd hempty (by decide)
          · exact absurd hempty (by decide)
        exact ⟨_, read_addPortRouting.mpr ⟨hdata, hopts, mode, appName, hmode, hne, hkey, rfl⟩,
          (Bus.accepts_addPortRouting hbus appName hne).mpr hadd⟩
      · rintro ⟨call, hread, haccepts⟩
        obtain ⟨hdata, hopts, mode, appName, hmode, hne, hkey, rfl⟩ :=
          read_addPortRouting.mp hread
        exact ⟨hdata, hopts, mode, appName, hmode, hkey,
          (Bus.accepts_addPortRouting hbus appName hne).mp haccepts⟩
  | deletePortRouting data =>
      constructor
      · rintro ⟨hdata, hport, appName, hkey, hdelete⟩
        exact ⟨_, read_deletePortRouting.mpr ⟨hdata, hport, appName, hkey, rfl⟩,
          (Bus.accepts_deletePortRouting hbus appName _).mpr hdelete⟩
      · rintro ⟨call, hread, haccepts⟩
        obtain ⟨hdata, hport, appName, hkey, rfl⟩ := read_deletePortRouting.mp hread
        exact ⟨hdata, hport, appName, hkey,
          (Bus.accepts_deletePortRouting hbus appName _).mp haccepts⟩

/-- The request is for the deletion of a port of an application that is not there. -/
def Unknown (conf : Conf N) : BusRequest N → Prop
  | .addPortRouting _ => False
  | .deletePortRouting data => ∃ appName,
      (data.property "app_name").propertyKey = .ok appName ∧ conf.lookup .http appName = .absent

/-- A request that does not throw reaches `updateConfiguration`, unless its application is
unknown. -/
theorem exec_outcome {bus : Bus N} {request : BusRequest N} {call : KeyedCall N}
    {left : Left N} (hread : request.read = .ok call) (hexec : bus.exec call = some left)
    (hthrow : left.outcome.isThrow = false) :
    (request.Unknown bus.agent.conf ∧ left.outcome = .deferred unknownApplication) ∨
      (¬request.Unknown bus.agent.conf ∧ left.outcome = .updating) := by
  cases request with
  | addPortRouting data =>
      obtain ⟨_, _, mode, appName, _, _, _, rfl⟩ := read_addPortRouting.mp hread
      refine Or.inr ⟨id, ?_⟩
      unfold Bus.exec at hexec
      split at hexec
      · cases hexec
        cases hthrow
      next routing hresolve =>
        obtain ⟨table, -, rfl⟩ := KeyedCall.resolve_eq_call hresolve
        cases hexec
        exact addPortRouting_outcome hthrow
      · cases hexec
        exact addPortChange_outcome hthrow
      · cases hexec
  | deletePortRouting data =>
      obtain ⟨_, _, appName, hkey, rfl⟩ := read_deletePortRouting.mp hread
      have hmode : (KeyedCall.deletePortRouting appName (data.property "port")).mode =
          Mode.key .http := rfl
      simp only [Bus.exec, KeyedCall.resolve_key bus.agent.conf hmode] at hexec
      cases hexec
      simp only [Unknown, hkey, Except.ok.injEq, exists_eq_left']
      exact deletePortRouting_outcome hthrow

end BusRequest

/-! ## One reply for each request -/

/-- The request fails before its write: its application is unknown or rendering fails.
Where the look-ups are not followed, the step itself says what came of them. -/
def BusStep.FailsFirst (bus next : Bus N) : BusStep N → Prop
  | .arrive (.bus request) => request.Unknown bus.agent.conf ∨
      ∃ fault, render next.agent.conf = .error fault
  | .stray _ _ task => task.phase.failure?.isSome = true
  | _ => False

namespace Bus

/-- No step of the request is left. -/
def Settled (bus : Bus N) : Served → Prop
  | .threw _ => True
  | .passed index => ∃ phase, bus.agent.phase? index = some phase ∧ phase.finished = true

theorem arrivalPhase_isThrow (conf : Conf N) (outcome : Outcome) :
    (Agent.arrivalPhase conf outcome).isThrow = outcome.isThrow := by
  cases outcome with
  | updating =>
      unfold Agent.arrivalPhase
      cases render conf <;> rfl
  | _ => rfl

/-- The phase in which a request arrives: without an exception exactly if it is
answerable, where its look-ups are followed, and failed exactly if the step fails first. -/
theorem request_arrives {bus next : Bus N} {request : BusRequest N} {step : BusStep N}
    (hbus : bus.polluted = false → bus.agent.conf.Unshadowed)
    (hrequest : step.request? = some request) (h : bus.step step = some next) :
    ∃ phase, bus.Arrives next (.bus request) phase ∧
      (bus.Follows request → (phase.isThrow = false ↔ request.Answerable bus)) ∧
      (phase.isThrow = false → (phase.failure?.isSome = true ↔ step.FailsFirst bus next)) := by
  obtain ⟨move, rfl, -⟩ | ⟨origin, phase, rfl, harrives, hclean, -, hread⟩ |
    ⟨origin, conf, task, rfl, harrives, hmay, -⟩ := step_cases h
  · cases hrequest
  · rcases origin with request' | call
    · cases hrequest
      refine ⟨phase, harrives, ?_⟩
      rw [request.answerable_iff (hbus hclean)]
      obtain ⟨fault, herror, rfl, -⟩ | ⟨call, left, hok, -, hexec, hconf, rfl⟩ := hread
      · refine ⟨fun _ => iff_of_false (by simp [Phase.isThrow]) ?_, nofun⟩
        rintro ⟨call, hok, -⟩
        exact nomatch herror.symm.trans hok
      · rw [arrivalPhase_isThrow]
        refine ⟨fun _ => ⟨fun hthrow => ⟨call, hok, left, hexec, hthrow⟩, ?_⟩, fun hthrow => ?_⟩
        · rintro ⟨other, hother, left', hleft, hthrow⟩
          obtain rfl : call = other := Except.ok.inj (hok.symm.trans hother)
          obtain rfl : left = left' := Option.some.inj (hexec.symm.trans hleft)
          exact hthrow
        · simp only [BusStep.FailsFirst, hconf]
          rcases BusRequest.exec_outcome hok hexec hthrow with
            ⟨hunknown, houtcome⟩ | ⟨hknown, houtcome⟩
          · rw [houtcome]
            exact iff_of_true rfl (Or.inl hunknown)
          · rw [houtcome, or_iff_right hknown]
            unfold Agent.arrivalPhase
            cases render left.conf <;> simp [Phase.failure?]
    · cases hrequest
  · rcases origin with request' | call
    · cases hrequest
      refine ⟨task.phase, harrives, fun hfollows => ?_, fun _ => Iff.rfl⟩
      obtain ⟨hclean, hfollowed⟩ := hfollows
      rw [request.answerable_iff (hbus hclean)]
      simp only [mayLeave, Origin.read, hclean, Bool.false_or, Bool.and_eq_true] at hmay
      obtain ⟨-, hmay⟩ := hmay
      split at hmay
      next => cases hmay
      next call hok =>
        split at hmay
        next hnone =>
          -- only an option that is an object is not followed
          refine absurd ?_ (hfollowed call hok)
          unfold exec at hnone
          split at hnone
          · cases hnone
          · cases hnone
          · cases hnone
          · assumption
        next left hexec =>
          rw [Bool.and_eq_true, beq_iff_eq] at hmay
          rw [hmay.2]
          refine ⟨fun hthrow => ⟨call, hok, left, hexec, hthrow⟩, ?_⟩
          rintro ⟨other, hother, left', hleft, hthrow⟩
          obtain rfl : call = other := Except.ok.inj (hok.symm.trans hother)
          obtain rfl : left = left' := Option.some.inj (hexec.symm.trans hleft)
          exact hthrow
    · cases hrequest

/-- Every request can be served in every state. -/
theorem request_enabled (bus : Bus N) (request : BusRequest N) :
    ∃ step next, step.request? = some request ∧ bus.step step = some next := by
  let threw : Task N := ⟨.addOrUpdateAppRouting "" .notObject, .threw .typeError⟩
  let failed : Task N := ⟨.addOrUpdateAppRouting "" .notObject, .replied (some .typeError)⟩
  have hstray : ∀ task : Task N, bus.mayLeave (.bus request) task.phase = true →
      ∃ step next, step.request? = some request ∧ bus.step step = some next :=
    fun task hmay => ⟨.stray (.bus request) bus.agent.conf task, _, rfl, if_pos hmay⟩
  cases hpolluted : bus.polluted with
  | true => exact hstray threw (by simp [mayLeave, hpolluted, threw, Phase.arrived])
  | false =>
      cases hread : request.read with
      | error fault =>
          exact ⟨.arrive (.bus request), _, rfl, by
            simp only [Bus.step, hpolluted, Origin.read, hread]; rfl⟩
      | ok call =>
          cases hexec : bus.exec call with
          | none =>
              exact hstray threw (by
                simp [mayLeave, hpolluted, Origin.read, hread, hexec, threw, Phase.arrived])
          | some left =>
              cases hpollutes : bus.pollutes call with
              | false =>
                  exact ⟨.arrive (.bus request), _, rfl, by
                    simp only [Bus.step, hpolluted, Origin.read, hread, hpollutes, hexec]; rfl⟩
              | true =>
                  cases hthrow : left.outcome.isThrow with
                  | true =>
                      exact hstray threw (by
                        simp [mayLeave, hpolluted, Origin.read, hread, hexec, threw,
                          Phase.arrived, hpollutes, hthrow, Phase.isThrow])
                  | false =>
                      exact hstray failed (by
                        simp [mayLeave, hpolluted, Origin.read, hread, hexec, failed,
                          Phase.arrived, hpollutes, hthrow, Phase.isThrow])

/-- A finished call that has not thrown has answered. -/
theorem replied_of_finished {phase : Phase} (hfinished : phase.finished = true)
    (hthrow : phase.isThrow = false) : ∃ err, phase = .replied err := by
  cases phase with
  | threw fault => cases hthrow
  | replied err => exact ⟨err, rfl⟩
  | _ => cases hfinished

/-- Every request is served in every state. After its last step it has been answered once,
with an error exactly if its application was unknown or if rendering, writing or signalling
failed; unless its handler threw. Where the look-ups are followed, the handler throws for
the requests that are not answerable. -/
theorem one_reply_iff (debugMode statusPort : Value N) (file : Text)
    (before : List (BusStep N)) (request : BusRequest N) (bus : Bus N)
    (hbefore : (idle debugMode statusPort file).run before = some bus) :
    (∃ step next, step.request? = some request ∧ bus.step step = some next) ∧
    ∀ (step : BusStep N) (next : Bus N) (served : Served) (after : List (BusStep N))
      (final : Bus N), step.request? = some request → bus.step step = some next →
      next.served = bus.served ++ [served] → next.run after = some final →
      final.Settled served →
      ((∃ index err, served = .passed index ∧ final.repliesTo index = [err] ∧
        (err.isSome = true ↔ step.FailsFirst bus next ∨
          ∃ later ∈ after, later.failsAt index = true)) ↔
        (bus.Follows request ∧ request.Answerable bus) ∨
        (¬bus.Follows request ∧ ∃ index, served = .passed index)) := by
  refine ⟨bus.request_enabled request, ?_⟩
  intro step next served after final hrequest hnext hserved hafter hsettled
  obtain ⟨phase, harrives, hanswerable, hfailure⟩ :=
    request_arrives (run_unshadowed hbefore) hrequest hnext
  obtain rfl : phase.served bus.agent.calls.length = served := by
    have hsame := harrives.served.symm.trans hserved
    exact List.singleton_inj.mp (List.append_cancel_left hsame)
  cases hthrow : phase.isThrow with
  | true =>
      obtain ⟨fault, rfl⟩ : ∃ fault, phase = .threw fault := by
        cases phase <;> first | exact ⟨_, rfl⟩ | cases hthrow
      refine iff_of_false ?_ ?_
      · rintro ⟨_, _, ⟨⟩, _⟩
      · rintro (⟨hfollows, hrequest⟩ | ⟨-, _, ⟨⟩⟩)
        exact nomatch (hanswerable hfollows).mpr hrequest
  | false =>
      have hpassed : phase.served bus.agent.calls.length = .passed bus.agent.calls.length := by
        cases phase <;> first | rfl | cases hthrow
      rw [hpassed] at hsettled ⊢
      refine iff_of_true ?_ ?_
      · have harrived : next.agent.phase? bus.agent.calls.length = some phase := by
          rw [harrives.phase?, if_pos ⟨hthrow, rfl⟩]
        obtain ⟨last, hlast, hlastThrow, hlastFailure⟩ := run_phase hafter harrived
        obtain ⟨phase', hphase, hfinished⟩ := hsettled
        rw [hlast, Option.some.injEq] at hphase
        subst hphase
        -- the call did not throw at its arrival, so it has finished by answering
        obtain ⟨err, rfl⟩ := replied_of_finished hfinished (hlastThrow.trans hthrow)
        refine ⟨_, err, rfl, ?_, ?_⟩
        · have hlogged :=
            ((logged_idle debugMode statusPort file).run hbefore).step hnext |>.run hafter
          rw [hlogged, Agent.repliesAt, hlast]
          rfl
        · have herr : err.isSome = true ↔ (Phase.replied err).failure?.isSome = true := Iff.rfl
          rw [herr, hlastFailure, Bool.or_eq_true, hfailure hthrow, List.any_eq_true]
      · by_cases hfollows : bus.Follows request
        · exact Or.inl ⟨hfollows, (hanswerable hfollows).mp hthrow⟩
        · exact Or.inr ⟨hfollows, _, rfl⟩

/-- A request to forward port 80 to 8001 in some mode. -/
def webRequest (mode : String) : BusRequest Int :=
  .addPortRouting <| .obj [("app_name", .str "web"),
    ("opts", .obj [("in_port", .num 80), ("out_port", .num 8001), ("mode", .str mode)])]

/-- A request with the mode `__proto__` for which rendering gives some text. -/
def protoStep : BusStep Int :=
  .stray (.bus (webRequest "__proto__")) emptyConf ⟨.forward "web" 80 8001, .writing []⟩

/-- After an entry was stored on a function, a request in a table whose signal fails is
answered with an error, and one with the mode `__proto__` is answered without. -/
theorem one_reply_web : ∃ bus next final strayed strayedFinal : Bus Int,
    (idle .undefined .undefined []).run [.arrive (.bus (webRequest "toString"))] = some bus ∧
      bus.step (.arrive (.bus (webRequest "http"))) = some next ∧
      next.run [.agent (.writeFile 1), .agent (.reload 1 false)] = some final ∧
      (∃ err, final.repliesTo 1 = [err] ∧ err.isSome = true) ∧
      bus.step protoStep = some strayed ∧
      strayed.run [.agent (.writeFile 1), .agent (.reload 1 true), .agent (.reply 1)] =
        some strayedFinal ∧
      ∃ err, strayedFinal.repliesTo 1 = [err] ∧ ¬err.isSome = true := by
  obtain ⟨bus, next, final, strayed, strayedFinal, hbefore, hpolluted, hconf, hstray, hnext,
    hserved, hafter, hsettled, hstrayed, hstrayedServed, hstrayedAfter, hstrayedSettled⟩ :
      ∃ bus next final strayed strayedFinal : Bus Int,
        (idle .undefined .undefined []).run [.arrive (.bus (webRequest "toString"))] = some bus ∧
        bus.polluted = false ∧ bus.agent.conf = emptyConf ∧
        bus.stray? .objectPrototype "web" = none ∧
        bus.step (.arrive (.bus (webRequest "http"))) = some next ∧
        next.served = bus.served ++ [.passed 1] ∧
        next.run [.agent (.writeFile 1), .agent (.reload 1 false)] = some final ∧
        final.Settled (.passed 1) ∧
        bus.step protoStep = some strayed ∧ strayed.served = bus.served ++ [.passed 1] ∧
        strayed.run [.agent (.writeFile 1), .agent (.reload 1 true), .agent (.reply 1)] =
          some strayedFinal ∧ strayedFinal.Settled (.passed 1) :=
    ⟨_, _, _, _, _, rfl, rfl, rfl, rfl, rfl, rfl, rfl, ⟨_, rfl, rfl⟩, rfl, rfl, rfl, _, rfl, rfl⟩
  have hfollows : ∀ request, bus.Follows request := fun _ =>
    ⟨hpolluted, fun call _ => call.resolve_followed (by rw [hconf]; rfl) (by rw [hconf]; rfl)⟩
  have htable : (webRequest "http").Answerable bus :=
    ⟨rfl, rfl, "http", "web", rfl, rfl, Or.inl ⟨.http, rfl, by decide, by
      rw [hconf]
      exact ⟨rfl, rfl⟩⟩⟩
  have hproto : (webRequest "__proto__").Answerable bus :=
    ⟨rfl, rfl, "__proto__", "web", rfl, rfl, Or.inr ⟨by decide, by decide, by
      change CanAddTo (bus.stray? .objectPrototype "web") _ _
      rw [hstray]
      exact ⟨rfl, rfl⟩⟩⟩
  obtain ⟨-, hall⟩ := one_reply_iff .undefined .undefined [] _ (webRequest "http") bus hbefore
  obtain ⟨_, err, ⟨⟩, hreply, herr⟩ := (hall _ next (.passed 1) _ final rfl hnext hserved hafter
    hsettled).mpr (Or.inl ⟨hfollows _, htable⟩)
  obtain ⟨-, hall'⟩ := one_reply_iff .undefined .undefined [] _ (webRequest "__proto__") bus
    hbefore
  obtain ⟨_, err', ⟨⟩, hreply', herr'⟩ := (hall' protoStep strayed (.passed 1) _ strayedFinal rfl
    hstrayed hstrayedServed hstrayedAfter hstrayedSettled).mpr
      (Or.inl ⟨hfollows _, hproto⟩)
  refine ⟨bus, next, final, strayed, strayedFinal, hbefore, hnext, hafter,
    ⟨err, hreply, herr.mpr (Or.inr ⟨.agent (.reload 1 false), by simp, rfl⟩)⟩, hstrayed,
    hstrayedAfter, err', hreply', ?_⟩
  rw [herr']
  simp [protoStep, BusStep.FailsFirst, Phase.failure?, BusStep.failsAt, Step.failsAt]

/-- A request without options is never answered. -/
theorem missing_opts_unanswered : ∃ next : Bus Int,
    (idle .undefined .undefined []).step
        (.arrive (.bus (.addPortRouting (.obj [("app_name", .str "web")])))) = some next ∧
      next.served = [.threw .typeError] ∧ next.replies = [] ∧ next.agent.tasks = [] :=
  ⟨_, rfl, rfl, rfl, rfl⟩

end Bus

end NginxInterface
