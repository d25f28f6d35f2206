import Mathlib.Data.List.TakeDrop

/-! # Positioned writes

A writer keeps its own position in a file that others may truncate or extend.
Writing past the end fills the gap with a padding byte.
-/

namespace Foundation

variable {Byte : Type}

/-- Write `bytes` at `position`, leaving the rest of the file in place. -/
def writeAt (pad : Byte) (file : List Byte) (position : Nat) (bytes : List Byte) : List Byte :=
  (file ++ List.replicate (position - file.length) pad).take position ++ bytes ++
    file.drop (position + bytes.length)

/-- A writer that alone owns the file extends what it has written so far. -/
theorem writeAt_own_prefix (pad : Byte) (data : List Byte) (position count : Nat)
    (hposition : position ≤ data.length) :
    writeAt pad (data.take position) position ((data.drop position).take count) =
      data.take (position + count) := by
  have hlength : (data.take position).length = position := by
    rw [List.length_take, Nat.min_eq_left hposition]
  have hrest : (data.take position).drop (position + ((data.drop position).take count).length) =
      [] := by
    apply List.drop_eq_nil_of_le
    omega
  unfold writeAt
  rw [hlength, Nat.sub_self, List.replicate_zero, List.append_nil, hrest, List.append_nil,
    List.take_take, Nat.min_self, List.take_add]

end Foundation
