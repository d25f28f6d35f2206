import Mathlib.Data.List.Basic

/-! # Sets of small numbers as arrays of words

A number is a bit of the word that its quotient by the width of a word selects. The
operations are those of C: a mask with one bit, tested with `&` and set with `|=`.
-/

namespace Foundation

namespace BitArray

variable {w : Nat}

def mask (i : Nat) : BitVec w := 1#w <<< (i % w)

def test (words : List (BitVec w)) (i : Nat) : Bool :=
  words.getD (i / w) 0#w &&& mask i ≠ 0#w

def set (words : List (BitVec w)) (i : Nat) : List (BitVec w) :=
  words.modify (i / w) (· ||| mask i)

/-- How many words hold `n` bits. -/
def size (w n : Nat) : Nat := (n + (w - 1)) / w

/-- The words of the first `n` bits are set to zero. -/
def clear (words : List (BitVec w)) (n : Nat) : List (BitVec w) :=
  words.mapIdx fun i word => if i < size w n then 0#w else word

@[simp] theorem length_set (words : List (BitVec w)) (i : Nat) :
    (set words i).length = words.length := List.length_modify ..

@[simp] theorem length_clear (words : List (BitVec w)) (n : Nat) :
    (clear words n).length = words.length := List.length_mapIdx

theorem test_eq_getLsbD (hw : 0 < w) (words : List (BitVec w)) (i : Nat) :
    test words i = (words.getD (i / w) 0#w).getLsbD (i % w) := by
  have hbit : i % w < w := Nat.mod_lt i hw
  have hmask : (mask i : BitVec w) = BitVec.twoPow w (i % w) := (BitVec.twoPow_eq w _).symm
  unfold test
  rw [hmask]
  generalize words.getD (i / w) 0#w = word
  cases hget : word.getLsbD (i % w) with
  | true =>
      rw [decide_eq_true_eq]
      intro hzero
      have hbits := congrArg (fun bits => bits.getLsbD (i % w)) hzero
      rw [BitVec.getLsbD_and, hget, BitVec.getLsbD_twoPow, BitVec.getLsbD_zero] at hbits
      simp [hbit] at hbits
  | false =>
      rw [decide_eq_false_iff_not, not_not]
      apply BitVec.eq_of_getLsbD_eq
      intro position hposition
      rw [BitVec.getLsbD_and, BitVec.getLsbD_twoPow, BitVec.getLsbD_zero]
      by_cases hsame : i % w = position
      · rw [← hsame, hget, Bool.false_and]
      · simp [hsame]

/-- Setting a stored bit adds exactly that bit. -/
theorem test_set (hw : 0 < w) {words : List (BitVec w)} {i : Nat} (hi : i / w < words.length)
    (j : Nat) : test (set words i) j = (decide (j = i) || test words j) := by
  rw [test_eq_getLsbD hw, test_eq_getLsbD hw]
  have hmask : (mask i : BitVec w) = BitVec.twoPow w (i % w) := (BitVec.twoPow_eq w _).symm
  by_cases hword : i / w = j / w
  · have hsame : i % w = j % w ↔ j = i := by
      constructor
      · intro hmod
        rw [← Nat.div_add_mod j w, ← Nat.div_add_mod i w, hword, hmod]
      · exact fun heq => heq ▸ rfl
    have hget : (set words i).getD (j / w) 0#w = words.getD (j / w) 0#w ||| mask i := by
      rw [← hword, set, List.getD_eq_getElem?_getD, List.getElem?_modify_eq,
        List.getD_eq_getElem?_getD, List.getElem?_eq_getElem hi]
      rfl
    have hmod : i % w < w := Nat.mod_lt i hw
    rw [hget, hmask, BitVec.getLsbD_or, BitVec.getLsbD_twoPow, Bool.or_comm]
    simp only [hmod, hsame, decide_true, Bool.true_and]
  · have hother : j ≠ i := fun heq => hword (heq ▸ rfl)
    have hget : (set words i).getD (j / w) 0#w = words.getD (j / w) 0#w := by
      rw [set, List.getD_eq_getElem?_getD, List.getElem?_modify_ne _ _ hword,
        List.getD_eq_getElem?_getD]
    rw [hget, decide_eq_false hother, Bool.false_or]

/-- Every bit below the bound has a word. -/
theorem div_lt_size (hw : 0 < w) {i n : Nat} (hi : i < n) : i / w < size w n := by
  rw [size, Nat.div_lt_iff_lt_mul hw, Nat.mul_comm]
  have hdiv := Nat.div_add_mod (n + (w - 1)) w
  have hmod := Nat.mod_lt (n + (w - 1)) hw
  omega

theorem size_mono {first second : Nat} (h : first ≤ second) : size w first ≤ size w second :=
  Nat.div_le_div_right (Nat.add_le_add_right h _)

/-- No bit below the bound is left after clearing. -/
theorem test_clear (hw : 0 < w) (words : List (BitVec w)) {i n : Nat} (hi : i < n) :
    test (clear words n) i = false := by
  have hget : (clear words n).getD (i / w) 0#w = 0#w := by
    rw [clear, List.getD_eq_getElem?_getD, List.getElem?_mapIdx]
    cases words[i / w]? with
    | none => rfl
    | some word => simp [div_lt_size hw hi]
  rw [test_eq_getLsbD hw, hget, BitVec.getLsbD_zero]

theorem test_replicate_zero (hw : 0 < w) (length i : Nat) :
    test (List.replicate length 0#w) i = false := by
  have hget : (List.replicate length 0#w).getD (i / w) 0#w = 0#w := by
    rw [List.getD_eq_getElem?_getD, List.getElem?_replicate]
    split <;> rfl
  rw [test_eq_getLsbD hw, hget, BitVec.getLsbD_zero]

end BitArray

end Foundation
