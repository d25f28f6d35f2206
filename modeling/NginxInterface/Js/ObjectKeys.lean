import Mathlib.Data.List.Sort
import NginxInterface.Foundation.PropertyTable

/-! # The order of `Object.keys`

Keys that are canonical array indices come first, in ascending order; the other
keys follow in the order in which they were created. Lookups of names that the
object does not own fall through to `Object.prototype`.
-/

namespace NginxInterface.Js

open Foundation

/-- The array index that a key spells, if it spells one canonically. -/
def arrayIndex? (key : String) : Option Nat :=
  let index := key.toList.foldl (fun n c => 10 * n + (c.toNat - '0'.toNat)) 0
  if index < 4294967295 ∧ toString index = key then some index else none

/-- The array indices among the keys, each with its key. -/
def indexed (keys : List String) : List (Nat × String) :=
  keys.filterMap fun key => (arrayIndex? key).map fun index => (index, key)

/-- The order in which `Object.keys` lists keys created in the given order. -/
def keyOrder (keys : List String) : List String :=
  ((indexed keys).insertionSort fun left right => left.1 ≤ right.1).map Prod.snd ++
    keys.filter fun key => (arrayIndex? key).isNone

def objectKeys {V : Type} (table : PropertyTable String V) : List String :=
  keyOrder table.keys

/-- The property names every plain object inherits. -/
def objectPrototypeNames : List String :=
  ["constructor", "__defineGetter__", "__defineSetter__", "hasOwnProperty",
    "__lookupGetter__", "__lookupSetter__", "isPrototypeOf", "propertyIsEnumerable",
    "toString", "valueOf", "__proto__", "toLocaleString"]

theorem arrayIndex?_spells {key : String} {index : Nat} (h : arrayIndex? key = some index) :
    toString index = key := by
  simp only [arrayIndex?] at h
  split at h
  next hindex =>
    rw [Option.some.injEq] at h
    rw [← h]
    exact hindex.2
  next => cases h

theorem mem_indexed {keys : List String} {pair : Nat × String} :
    pair ∈ indexed keys ↔ pair.2 ∈ keys ∧ arrayIndex? pair.2 = some pair.1 := by
  unfold indexed
  simp only [List.mem_filterMap, Option.map_eq_some_iff]
  constructor
  · rintro ⟨key, hkey, index, hindex, rfl⟩
    exact ⟨hkey, hindex⟩
  · rintro ⟨hkey, hindex⟩
    exact ⟨pair.2, hkey, pair.1, hindex, rfl⟩

theorem mem_keyOrder {keys : List String} {key : String} : key ∈ keyOrder keys ↔ key ∈ keys := by
  unfold keyOrder
  simp only [List.mem_append, List.mem_map, List.mem_insertionSort, mem_indexed, List.mem_filter,
    Option.isNone_iff_eq_none]
  constructor
  · rintro (⟨pair, ⟨hkey, _⟩, rfl⟩ | ⟨hkey, _⟩)
    · exact hkey
    · exact hkey
  · intro hkey
    cases hindex : arrayIndex? key with
    | none => exact Or.inr ⟨hkey, rfl⟩
    | some index => exact Or.inl ⟨(index, key), ⟨hkey, hindex⟩, rfl⟩

theorem mem_objectKeys {V : Type} {table : PropertyTable String V} {key : String} :
    key ∈ objectKeys table ↔ key ∈ table.keys := mem_keyOrder

theorem indexed_filter (keys : List String) (keep : String → Bool) :
    indexed (keys.filter keep) = (indexed keys).filter fun pair => keep pair.2 := by
  induction keys with
  | nil => rfl
  | cons key rest ih =>
      unfold indexed at ih ⊢
      cases hkeep : keep key <;> cases hindex : arrayIndex? key <;> simp [hkeep, hindex, ih]

/-- Two sorted lists of spelled indices with the same members agree, since the
index of a key determines it. -/
theorem sorted_indexed_unique {left right : List (Nat × String)}
    (hperm : left.Perm right)
    (hspell : ∀ pair ∈ left, arrayIndex? pair.2 = some pair.1)
    (hleft : left.Pairwise fun first second => first.1 ≤ second.1)
    (hright : right.Pairwise fun first second => first.1 ≤ second.1) : left = right := by
  refine hperm.eq_of_pairwise ?_ hleft hright
  intro first second hfirst hsecond hle hge
  have hindex : first.1 = second.1 := Nat.le_antisymm hle hge
  have hkey : first.2 = second.2 := by
    rw [← arrayIndex?_spells (hspell first hfirst),
      ← arrayIndex?_spells (hspell second (hperm.mem_iff.mpr hsecond)), hindex]
  exact Prod.ext hindex hkey

/-- Leaving out keys leaves the order of the others unchanged. -/
theorem keyOrder_filter (keys : List String) (keep : String → Bool) :
    keyOrder (keys.filter keep) = (keyOrder keys).filter keep := by
  unfold keyOrder
  rw [List.filter_append, List.filter_map, List.filter_filter, List.filter_filter]
  congr 1
  · congr 1
    refine sorted_indexed_unique ?_ ?_ (List.pairwise_insertionSort _ _) ?_
    · refine (List.perm_insertionSort _ _).trans ?_
      rw [indexed_filter]
      exact ((List.perm_insertionSort _ (indexed keys)).filter _).symm
    · intro pair hpair
      exact (mem_indexed.mp ((List.mem_insertionSort _).mp hpair)).2
    · exact (List.pairwise_insertionSort _ _).filter _
  · apply List.filter_congr
    intro key _
    exact Bool.and_comm _ _

theorem objectKeys_erase {V : Type} (table : PropertyTable String V) (key : String) :
    objectKeys (table.erase key) = (objectKeys table).filter fun other => other ≠ key := by
  unfold objectKeys
  rw [PropertyTable.keys_erase, keyOrder_filter]

theorem objectKeys_nodup {V : Type} (table : PropertyTable String V) :
    (objectKeys table).Nodup := by
  unfold objectKeys keyOrder
  rw [List.nodup_append]
  refine ⟨?_, table.keys_nodup.filter _, ?_⟩
  · have hpairs : ((indexed table.keys).map Prod.snd).Nodup := by
      have hsub : (indexed table.keys).map Prod.snd =
          table.keys.filter fun key => (arrayIndex? key).isSome := by
        induction table.keys with
        | nil => rfl
        | cons key rest ih =>
            unfold indexed at ih ⊢
            cases hindex : arrayIndex? key <;> simp [hindex, ih]
      rw [hsub]
      exact table.keys_nodup.filter _
    exact (((List.perm_insertionSort _ _).map Prod.snd).nodup_iff).mpr hpairs
  · intro left hleft right hright heq
    subst heq
    obtain ⟨pair, hpair, rfl⟩ := List.mem_map.mp hleft
    have hsome := (mem_indexed.mp ((List.mem_insertionSort _).mp hpair)).2
    have hnone := (List.mem_filter.mp hright).2
    simp [hsome] at hnone

example : keyOrder ["b", "10", "a", "9", "007"] = ["9", "10", "b", "a", "007"] := by decide

/-- Deleting a property takes its key out and leaves the other keys in their order. -/
theorem objectKeys_erase_of_split {V : Type} {table : PropertyTable String V} {key : String}
    {first second : List String} (h : objectKeys table = first ++ key :: second) :
    objectKeys (table.erase key) = first ++ second ∧ key ∉ first ++ second := by
  have hnodup := objectKeys_nodup table
  rw [h, List.nodup_middle, List.nodup_cons] at hnodup
  refine ⟨?_, hnodup.1⟩
  have hkeep : ∀ other ∈ first ++ second, decide (other ≠ key) = true := fun other hother =>
    decide_eq_true fun heq => hnodup.1 (heq ▸ hother)
  rw [objectKeys_erase, h, List.filter_append, List.filter_cons_of_neg (by simp),
    ← List.filter_append, List.filter_eq_self.mpr hkeep]

end NginxInterface.Js
