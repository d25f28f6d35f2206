import NginxInterface.Foundation.Runs
import Mathlib.Data.List.TakeDrop

/-! # Reading through a bounded buffer

A reader sees its input through a buffer of fixed capacity. Behind a mark it may still look back
at the items that it has read; when the buffer is used up, these are moved to its front and the
rest of it is filled from the input. If they fill the whole buffer, reading fails.

Where the buffer ends does not matter: reading through it is reading the input itself, with the
items since the mark at hand, as long as they are fewer than the capacity.
-/

namespace Foundation

variable {Item State Output : Type}

/-- A buffer with the items read so far up to `pos`, those since `mark` in use, and the input
that was not put into the buffer yet. -/
structure Window (Item : Type) (capacity : Nat) where
  data : List Item
  mark : Nat
  pos : Nat
  unread : List Item
  mark_le : mark ≤ pos
  pos_le : pos ≤ data.length
  data_le : data.length ≤ capacity

/-- What reading an item does to the mark. -/
inductive Mark where
  | stay
  /-- in front of the item -/
  | before
  /-- behind the item -/
  | after
  deriving DecidableEq

/-- The items since the mark, when one more is read. -/
def Mark.held (mark : Mark) (held : List Item) (item : Item) : List Item :=
  match mark with
  | .stay => held ++ [item]
  | .before => [item]
  | .after => []

/-- The number of these items. -/
def Mark.count (mark : Mark) (held : Nat) : Nat :=
  match mark with
  | .stay => held + 1
  | .before => 1
  | .after => 0

theorem Mark.length_held (mark : Mark) (held : List Item) (item : Item) :
    (mark.held held item).length = mark.count held.length := by
  cases mark with
  | stay => exact List.length_append
  | before => rfl
  | after => rfl

namespace Window

variable {capacity : Nat}

def start (capacity : Nat) (input : List Item) : Window Item capacity where
  data := []
  mark := 0
  pos := 0
  unread := input
  mark_le := Nat.le_refl 0
  pos_le := Nat.le_refl 0
  data_le := Nat.zero_le capacity

/-- The items since the mark. -/
def held (window : Window Item capacity) : List Item :=
  (window.data.take window.pos).drop window.mark

/-- The items that were not read yet. -/
def rest (window : Window Item capacity) : List Item :=
  window.data.drop window.pos ++ window.unread

theorem length_held (window : Window Item capacity) :
    window.held.length = window.pos - window.mark := by
  rw [held, List.length_drop, List.length_take, Nat.min_eq_left window.pos_le]

/-- The buffer with the items since the mark at its front, and as many others as fit. -/
def moved (window : Window Item capacity) : Window Item capacity where
  data := window.held ++ window.unread.take (capacity - window.held.length)
  mark := 0
  pos := window.held.length
  unread := window.unread.drop (capacity - window.held.length)
  mark_le := Nat.zero_le _
  pos_le := by
    rw [List.length_append]
    exact Nat.le_add_right _ _
  data_le := by
    have hheld := window.length_held
    have hpos := window.pos_le
    have hdata := window.data_le
    rw [List.length_append, List.length_take]
    omega

/-- Make sure that there is an item in the buffer, unless the input has ended. -/
def fill (window : Window Item capacity) : Option (Window Item capacity) :=
  if window.pos < window.data.length ∨ window.unread = [] then some window
  else if window.held.length = capacity then none
  else some window.moved

/-- Read an item that is in the buffer. -/
def advance (window : Window Item capacity) (h : window.pos < window.data.length) (mark : Mark) :
    Window Item capacity :=
  { window with
    pos := window.pos + 1
    mark := match mark with
      | .stay => window.mark
      | .before => window.pos
      | .after => window.pos + 1
    mark_le := by
      have hmark := window.mark_le
      cases mark <;> simp only <;> omega
    pos_le := h }

theorem held_moved (window : Window Item capacity) : window.moved.held = window.held := by
  rw [held, moved, List.drop_zero, List.take_left]

theorem rest_moved (window : Window Item capacity) (hend : window.data.length ≤ window.pos) :
    window.moved.rest = window.rest := by
  rw [rest, rest, moved, List.drop_left, List.take_append_drop,
    List.drop_eq_nil_of_le hend, List.nil_append]

/-- Where the buffer ends makes no difference to a failure. -/
theorem fill_eq_none_iff (window : Window Item capacity) :
    window.fill = none ↔ window.held.length = capacity ∧ window.rest ≠ [] := by
  have hheld := window.length_held
  have hpos := window.pos_le
  have hdata := window.data_le
  unfold fill rest
  constructor
  · intro h
    split at h
    · cases h
    next hempty =>
      split at h
      next hfull =>
        refine ⟨hfull, fun hrest => hempty (Or.inr ?_)⟩
        exact (List.append_eq_nil_iff.mp hrest).2
      · cases h
  · rintro ⟨hfull, hrest⟩
    -- the items since the mark are all that is in the buffer
    have hend : window.data.length ≤ window.pos := by omega
    rw [List.drop_eq_nil_of_le hend, List.nil_append] at hrest
    rw [if_neg (not_or.mpr ⟨Nat.not_lt.mpr hend, hrest⟩), if_pos hfull]

theorem fill_eq_some {window filled : Window Item capacity} (h : window.fill = some filled) :
    filled.held = window.held ∧ filled.rest = window.rest ∧
      (window.rest ≠ [] → filled.pos < filled.data.length) := by
  unfold fill at h
  split at h
  next hready =>
    cases h
    refine ⟨rfl, rfl, fun hrest => ?_⟩
    rcases hready with hlt | hunread
    · exact hlt
    · rw [rest, hunread, List.append_nil] at hrest
      exact Nat.lt_of_not_le (mt List.drop_eq_nil_iff.mpr hrest)
  next hempty =>
    obtain ⟨hend, hunread⟩ := not_or.mp hempty
    split at h
    · cases h
    next hroom =>
      cases h
      refine ⟨window.held_moved, window.rest_moved (Nat.le_of_not_lt hend), fun _ => ?_⟩
      have hheld := window.length_held
      have hpos := window.pos_le
      have hdata := window.data_le
      have hsome := List.length_pos_of_ne_nil hunread
      change window.held.length <
        (window.held ++ window.unread.take (capacity - window.held.length)).length
      rw [List.length_append, List.length_take]
      omega

theorem rest_advance (window : Window Item capacity) (h : window.pos < window.data.length)
    (mark : Mark) : window.rest = window.data[window.pos] :: (window.advance h mark).rest := by
  rw [rest, rest, List.drop_eq_getElem_cons h]
  rfl

theorem held_advance (window : Window Item capacity) (h : window.pos < window.data.length)
    (mark : Mark) :
    (window.advance h mark).held = mark.held window.held window.data[window.pos] := by
  have htake : window.data.take (window.pos + 1) =
      window.data.take window.pos ++ [window.data[window.pos]] := List.take_succ_eq_append_getElem h
  have hlength : (window.data.take window.pos).length = window.pos := by
    rw [List.length_take, Nat.min_eq_left window.pos_le]
  have hmark := window.mark_le
  cases mark with
  | stay =>
      change (window.data.take (window.pos + 1)).drop window.mark = _
      rw [htake, List.drop_append_of_le_length (by omega)]
      rfl
  | before =>
      change (window.data.take (window.pos + 1)).drop window.pos = _
      rw [htake, List.drop_append_of_le_length (by omega),
        List.drop_eq_nil_of_le (Nat.le_of_eq hlength)]
      rfl
  | after =>
      change (window.data.take (window.pos + 1)).drop (window.pos + 1) = _
      rw [List.drop_eq_nil_of_le (by rw [List.length_take]; omega)]
      rfl

/-- Feed the input to a machine that looks at the items since the mark and moves it. -/
def read (step : State → List Item → Item → Option (State × Mark × List Output)) :
    (fuel : Nat) → State → Window Item capacity → List Output × Option State
  | 0, state, _ => ([], some state)
  | fuel + 1, state, window =>
      match window.fill with
      | none => ([], none)
      | some filled =>
          if h : filled.pos < filled.data.length then
            match step state filled.held filled.data[filled.pos] with
            | none => ([], none)
            | some (next, mark, emitted) =>
                let tail := read step fuel next (filled.advance h mark)
                (emitted ++ tail.1, tail.2)
          else ([], some state)

end Window

/-- The machine that reads the input itself, with the items since the mark as part of its
state. -/
def heldStep (capacity : Nat)
    (step : State → List Item → Item → Option (State × Mark × List Output))
    (state : State × List Item) (item : Item) : Option ((State × List Item) × List Output) :=
  if state.2.length = capacity then none
  else (step state.1 state.2 item).map fun result =>
    ((result.1, result.2.1.held state.2 item), result.2.2)

namespace Window

variable {capacity : Nat}
  {step : State → List Item → Item → Option (State × Mark × List Output)}

/-- Reading through the buffer is reading the input itself. -/
theorem read_eq_transduce {fuel : Nat} {state : State} {window : Window Item capacity}
    (hfuel : window.rest.length ≤ fuel) :
    window.read step fuel state =
      ((transduce (heldStep capacity step) (state, window.held) window.rest).1,
        (transduce (heldStep capacity step) (state, window.held) window.rest).2.map
          Prod.fst) := by
  induction fuel generalizing state window with
  | zero =>
      have hrest : window.rest = [] := List.length_eq_zero_iff.mp (Nat.le_zero.mp hfuel)
      rw [hrest]
      rfl
  | succ fuel ih =>
      unfold read
      cases hfill : window.fill with
      | none =>
          obtain ⟨hfull, hrest⟩ := window.fill_eq_none_iff.mp hfill
          obtain ⟨item, tail, htail⟩ := List.exists_cons_of_ne_nil hrest
          simp only [htail, transduce, heldStep, hfull, if_true]
          rfl
      | some filled =>
          obtain ⟨hheld, hrest, hready⟩ := fill_eq_some hfill
          have hroom : window.rest ≠ [] → window.held.length ≠ capacity := by
            intro hsome hfull
            rw [window.fill_eq_none_iff.mpr ⟨hfull, hsome⟩] at hfill
            cases hfill
          dsimp only
          split
          next hpos =>
            have hcons := filled.rest_advance hpos .stay
            rw [hrest] at hcons
            have hfree := hroom (by rw [hcons]; exact List.cons_ne_nil _ _)
            rw [hheld]
            cases hstep : step state window.held filled.data[filled.pos] with
            | none =>
                simp only [hcons, transduce, heldStep, hfree, if_false, hstep]
                rfl
            | some result =>
                obtain ⟨next, mark, emitted⟩ := result
                have hnext : window.rest =
                    filled.data[filled.pos] :: (filled.advance hpos mark).rest :=
                  hrest.symm.trans (filled.rest_advance hpos mark)
                have hlength : (filled.advance hpos mark).rest.length ≤ fuel := by
                  rw [hnext, List.length_cons] at hfuel
                  omega
                dsimp only
                rw [ih hlength, filled.held_advance hpos mark, hheld, hnext]
                simp only [transduce, heldStep, hfree, if_false, hstep, Option.map_some]
          next hpos =>
            have hnil : window.rest = [] := by
              by_contra hsome
              exact hpos (hready hsome)
            rw [hnil]
            rfl

end Window

end Foundation
