import Mathlib.Data.List.Basic

/-! # Runs of labelled transition functions

A system is a partial transition function: `none` says that the label is not
enabled. A run takes a list of labels; a transducer run also collects what each
step emits and may stop in the middle of its input.
-/

namespace Foundation

variable {State Label : Type}

/-- Take the labels in order, failing at the first one that is not enabled. -/
def runSteps (step : State → Label → Option State) : State → List Label → Option State
  | state, [] => some state
  | state, label :: rest => (step state label).bind fun next => runSteps step next rest

@[simp] theorem runSteps_nil (step : State → Label → Option State) (state : State) :
    runSteps step state [] = some state := rfl

theorem runSteps_cons (step : State → Label → Option State) (state : State)
    (label : Label) (rest : List Label) :
    runSteps step state (label :: rest) =
      (step state label).bind fun next => runSteps step next rest := rfl

theorem runSteps_append (step : State → Label → Option State) (state : State)
    (first second : List Label) :
    runSteps step state (first ++ second) =
      (runSteps step state first).bind fun next => runSteps step next second := by
  induction first generalizing state with
  | nil => rfl
  | cons label rest ih =>
      rw [List.cons_append, runSteps_cons, runSteps_cons, Option.bind_assoc]
      congr 1
      funext next
      exact ih next

/-- A run through a given step splits into the part before it, the step itself,
and the part after it. -/
theorem runSteps_cons_eq_some (step : State → Label → Option State) {state final : State}
    {label : Label} {rest : List Label}
    (hrun : runSteps step state (label :: rest) = some final) :
    ∃ next, step state label = some next ∧ runSteps step next rest = some final := by
  rw [runSteps_cons] at hrun
  exact Option.bind_eq_some_iff.mp hrun

theorem runSteps_append_eq_some (step : State → Label → Option State) {state final : State}
    {first second : List Label}
    (hrun : runSteps step state (first ++ second) = some final) :
    ∃ middle, runSteps step state first = some middle ∧
      runSteps step middle second = some final := by
  rw [runSteps_append] at hrun
  exact Option.bind_eq_some_iff.mp hrun

/-- The guard holds of every step of the run, in the state that the step is taken in. -/
def Along (step : State → Label → Option State) (guard : State → Label → Prop) :
    State → List Label → Prop
  | _, [] => True
  | state, label :: rest =>
      guard state label ∧
        match step state label with
        | some next => Along step guard next rest
        | none => True

instance Along.decide (step : State → Label → Option State) (guard : State → Label → Prop)
    [∀ state label, Decidable (guard state label)] (state : State) (labels : List Label) :
    Decidable (Along step guard state labels) :=
  match labels with
  | [] => isTrue trivial
  | label :: rest =>
      match hstep : step state label with
      | some next =>
          have := Along.decide step guard next rest
          decidable_of_iff (guard state label ∧ Along step guard next rest) (by simp [Along, hstep])
      | none => decidable_of_iff (guard state label) (by simp [Along, hstep])

theorem along_of_forall (step : State → Label → Option State) {allowed : Label → Prop}
    {labels : List Label} (h : ∀ label ∈ labels, allowed label) (state : State) :
    Along step (fun _ label => allowed label) state labels := by
  induction labels generalizing state with
  | nil => trivial
  | cons label rest ih =>
      refine ⟨h label List.mem_cons_self, ?_⟩
      cases step state label with
      | none => trivial
      | some next => exact ih (fun other hother => h other (List.mem_cons_of_mem _ hother)) next

/-- Two guards that both hold along a run hold together. -/
theorem Along.combine {step : State → Label → Option State}
    {first second both : State → Label → Prop}
    (hboth : ∀ state label, first state label → second state label → both state label)
    {state : State} {labels : List Label} (hfirst : Along step first state labels)
    (hsecond : Along step second state labels) : Along step both state labels := by
  induction labels generalizing state with
  | nil => trivial
  | cons label rest ih =>
      refine ⟨hboth state label hfirst.1 hsecond.1, ?_⟩
      have hfirst := hfirst.2
      have hsecond := hsecond.2
      cases hnext : step state label with
      | none => trivial
      | some next =>
          simp only [hnext] at hfirst hsecond
          exact ih hfirst hsecond

/-- A predicate that the steps taken under the guard preserve holds at the end of every run
along which the guard holds. -/
theorem runSteps_invariant_along (step : State → Label → Option State)
    (guard : State → Label → Prop) (invariant : State → Prop)
    (hstep : ∀ state label next, guard state label → invariant state →
      step state label = some next → invariant next)
    {state final : State} {labels : List Label} (hguard : Along step guard state labels)
    (hstate : invariant state) (hrun : runSteps step state labels = some final) :
    invariant final := by
  induction labels generalizing state with
  | nil =>
      rw [runSteps_nil, Option.some.injEq] at hrun
      exact hrun ▸ hstate
  | cons label rest ih =>
      obtain ⟨next, hnext, hrest⟩ := runSteps_cons_eq_some step hrun
      obtain ⟨hlabel, hfollowing⟩ := hguard
      simp only [hnext] at hfollowing
      exact ih hfollowing (hstep state label next hlabel hstate hnext) hrest

/-- A predicate preserved by every enabled step whose label is allowed holds at
the end of every run over allowed labels. -/
theorem runSteps_invariant (step : State → Label → Option State) (allowed : Label → Prop)
    (invariant : State → Prop)
    (hstep : ∀ state label next, allowed label → invariant state →
      step state label = some next → invariant next)
    {state final : State} {labels : List Label}
    (hallowed : ∀ label ∈ labels, allowed label) (hstate : invariant state)
    (hrun : runSteps step state labels = some final) : invariant final :=
  runSteps_invariant_along step (fun _ label => allowed label) invariant hstep
    (along_of_forall step hallowed state) hstate hrun

/-- If an observation is unchanged by the irrelevant labels, and what a relevant
label makes of it depends on the observation alone, then the irrelevant labels can
be purged from any run without being noticed. -/
theorem foldl_observe_purge {Observation : Type} (step : State → Label → State)
    (observe : State → Observation) (relevant : Label → Bool)
    (hframe : ∀ state label, relevant label = false → observe (step state label) = observe state)
    (hlocal : ∀ left right label, relevant label = true → observe left = observe right →
      observe (step left label) = observe (step right label))
    (labels : List Label) {left right : State} (hstart : observe left = observe right) :
    observe (labels.foldl step left) =
      observe ((labels.filter relevant).foldl step right) := by
  induction labels generalizing left right with
  | nil => exact hstart
  | cons label rest ih =>
      cases hlabel : relevant label with
      | true =>
          rw [List.filter_cons_of_pos hlabel]
          exact ih (hlocal left right label hlabel hstart)
      | false =>
          rw [List.filter_cons_of_neg (by simp [hlabel])]
          exact ih ((hframe left label hlabel).trans hstart)

/-! ## Transducers -/

variable {Input Output : Type}

/-- Feed a list of inputs to a machine that may refuse an input. The outputs up
to the refusal are kept; `none` in place of the final state records it. -/
def transduce (step : State → Input → Option (State × List Output)) :
    State → List Input → List Output × Option State
  | state, [] => ([], some state)
  | state, input :: rest =>
      match step state input with
      | none => ([], none)
      | some (next, emitted) =>
          let tail := transduce step next rest
          (emitted ++ tail.1, tail.2)

@[simp] theorem transduce_nil (step : State → Input → Option (State × List Output))
    (state : State) : transduce step state [] = ([], some state) := rfl

theorem transduce_cons_of_step (step : State → Input → Option (State × List Output))
    {state next : State} {input : Input} {emitted : List Output} (rest : List Input)
    (hstep : step state input = some (next, emitted)) :
    transduce step state (input :: rest) =
      (emitted ++ (transduce step next rest).1, (transduce step next rest).2) := by
  simp only [transduce, hstep]

/-- Reading a concatenation reads the first part and then, if it was accepted,
the second part from where the first one ended. -/
theorem transduce_append (step : State → Input → Option (State × List Output))
    {state next : State} {first : List Input} {emitted : List Output} (second : List Input)
    (hfirst : transduce step state first = (emitted, some next)) :
    transduce step state (first ++ second) =
      (emitted ++ (transduce step next second).1, (transduce step next second).2) := by
  induction first generalizing state emitted with
  | nil =>
      rw [transduce_nil, Prod.mk.injEq, Option.some.injEq] at hfirst
      obtain ⟨rfl, rfl⟩ := hfirst
      rfl
  | cons input rest ih =>
      rw [List.cons_append]
      simp only [transduce] at hfirst ⊢
      cases hstep : step state input with
      | none => simp [hstep] at hfirst
      | some result =>
          obtain ⟨middle, head⟩ := result
          simp only [hstep, Prod.mk.injEq] at hfirst
          have htail : transduce step middle rest =
              ((transduce step middle rest).1, some next) := by
            rw [← hfirst.2]
          simp only
          rw [ih htail, ← hfirst.1, List.append_assoc]

/-- A refusal inside the first part is a refusal of the whole input. -/
theorem transduce_append_of_refused (step : State → Input → Option (State × List Output))
    {state : State} {first : List Input} {emitted : List Output} (second : List Input)
    (hfirst : transduce step state first = (emitted, none)) :
    transduce step state (first ++ second) = (emitted, none) := by
  induction first generalizing state emitted with
  | nil => simp [transduce] at hfirst
  | cons input rest ih =>
      rw [List.cons_append]
      simp only [transduce] at hfirst ⊢
      cases hstep : step state input with
      | none => simpa [hstep] using hfirst
      | some result =>
          obtain ⟨middle, head⟩ := result
          simp only [hstep, Prod.mk.injEq] at hfirst
          have htail : transduce step middle rest = ((transduce step middle rest).1, none) := by
            rw [← hfirst.2]
          simp only
          rw [ih htail, ← hfirst.1]

/-- An accepted list of inputs is accepted from its first input on. -/
theorem transduce_cons_eq_some (step : State → Input → Option (State × List Output))
    {state final : State} {input : Input} {rest : List Input}
    (hrun : (transduce step state (input :: rest)).2 = some final) :
    ∃ next emitted, step state input = some (next, emitted) ∧
      (transduce step next rest).2 = some final := by
  simp only [transduce] at hrun
  cases hnext : step state input with
  | none => simp [hnext] at hrun
  | some result =>
      simp only [hnext] at hrun
      exact ⟨result.1, result.2, rfl, hrun⟩

/-- A predicate preserved by every accepted input that is allowed holds at the end
of every accepted list of allowed inputs. -/
theorem transduce_invariant (step : State → Input → Option (State × List Output))
    (allowed : Input → Prop) (invariant : State → Prop)
    (hstep : ∀ state input next emitted, allowed input → invariant state →
      step state input = some (next, emitted) → invariant next)
    {state final : State} {inputs : List Input}
    (hallowed : ∀ input ∈ inputs, allowed input) (hstate : invariant state)
    (hrun : (transduce step state inputs).2 = some final) : invariant final := by
  induction inputs generalizing state with
  | nil =>
      rw [transduce_nil, Option.some.injEq] at hrun
      exact hrun ▸ hstate
  | cons input rest ih =>
      obtain ⟨next, emitted, hnext, hrest⟩ := transduce_cons_eq_some step hrun
      have hinput := hallowed input List.mem_cons_self
      exact ih (fun other hother => hallowed other (List.mem_cons_of_mem _ hother))
        (hstep state input next emitted hinput hstate hnext) hrest

/-- If an observation of the state decides whether an input is accepted and what is
observed next, it decides the same for lists of inputs. -/
theorem transduce_observe {Observation : Type}
    (step : State → Input → Option (State × List Output)) (observe : State → Observation)
    (hstep : ∀ left right input, observe left = observe right →
      (step left input).map (fun next => observe next.1) =
        (step right input).map fun next => observe next.1)
    {left right : State} (hstart : observe left = observe right) (inputs : List Input) :
    (transduce step left inputs).2.map observe =
      (transduce step right inputs).2.map observe := by
  induction inputs generalizing left right with
  | nil => exact congrArg some hstart
  | cons input rest ih =>
      have hnext := hstep left right input hstart
      simp only [transduce]
      cases hleft : step left input with
      | none =>
          rw [hleft, Option.map_none, eq_comm, Option.map_eq_none_iff] at hnext
          rw [hnext]
      | some result =>
          rw [hleft, Option.map_some, eq_comm, Option.map_eq_some_iff] at hnext
          obtain ⟨other, hright, hsame⟩ := hnext
          rw [hright]
          exact ih hsame.symm

end Foundation
