import Mathlib.Data.List.Nodup

/-! # Insertion-ordered property tables

A property table holds the own properties of a plain object. Writing a present
key replaces its value in place, writing a new key appends it, and deleting a
key keeps the order of the others. Keys are pairwise different by construction.
-/

namespace Foundation

/-- Own properties in the order in which they were created. -/
structure PropertyTable (Key Value : Type) where
  entries : List (Key × Value)
  nodup : (entries.map Prod.fst).Nodup

namespace PropertyTable

variable {Key Value : Type} [DecidableEq Key]

omit [DecidableEq Key] in
@[ext] theorem ext {left right : PropertyTable Key Value}
    (h : left.entries = right.entries) : left = right := by
  cases left
  cases right
  cases h
  rfl

/-- The table of `{}`. -/
def empty : PropertyTable Key Value := ⟨[], List.nodup_nil⟩

def keys (table : PropertyTable Key Value) : List Key := table.entries.map Prod.fst

def get? (table : PropertyTable Key Value) (key : Key) : Option Value :=
  table.entries.lookup key

/-- Overwrite the value stored under a key, leaving the other pairs in place. -/
def replaceEntries (key : Key) (value : Value) (entries : List (Key × Value)) :
    List (Key × Value) :=
  entries.map fun entry => if entry.1 = key then (key, value) else entry

omit [DecidableEq Key] in
theorem keys_nodup (table : PropertyTable Key Value) : table.keys.Nodup := table.nodup

theorem replaceEntries_keys (key : Key) (value : Value) (entries : List (Key × Value)) :
    (replaceEntries key value entries).map Prod.fst = entries.map Prod.fst := by
  unfold replaceEntries
  rw [List.map_map]
  apply List.map_congr_left
  intro entry _
  by_cases h : entry.1 = key
  · simp [h]
  · simp [h]

/-- `table[key] = value`. -/
def set (table : PropertyTable Key Value) (key : Key) (value : Value) :
    PropertyTable Key Value :=
  if h : key ∈ table.keys then
    ⟨replaceEntries key value table.entries, by
      rw [replaceEntries_keys]
      exact table.nodup⟩
  else
    ⟨table.entries ++ [(key, value)], by
      rw [List.map_append, List.nodup_append]
      refine ⟨table.nodup, List.nodup_singleton _, ?_⟩
      intro left hleft right hright
      have hkey : right = key := by simpa using hright
      subst hkey
      exact fun heq => h (heq ▸ hleft)⟩

/-- `delete table[key]`. -/
def erase (table : PropertyTable Key Value) (key : Key) : PropertyTable Key Value :=
  ⟨table.entries.filter fun entry => entry.1 ≠ key,
    table.nodup.sublist (List.filter_sublist.map Prod.fst)⟩

/-! ## Reading back -/

@[simp] theorem get?_empty (key : Key) :
    (empty : PropertyTable Key Value).get? key = none := rfl

theorem get?_eq_none_iff (table : PropertyTable Key Value) (key : Key) :
    table.get? key = none ↔ key ∉ table.keys := by
  unfold get? keys
  rw [List.lookup_eq_none_iff]
  simp only [List.mem_map, not_exists, not_and, bne_iff_ne, ne_eq]
  exact ⟨fun h entry hentry heq => h entry hentry heq.symm,
    fun h entry hentry heq => h entry hentry heq.symm⟩

theorem mem_keys_iff (table : PropertyTable Key Value) (key : Key) :
    key ∈ table.keys ↔ ∃ value, table.get? key = some value := by
  rw [← Option.isSome_iff_exists, ← not_iff_not, ← get?_eq_none_iff]
  simp

private theorem lookup_replaceEntries (key query : Key) (value : Value)
    (entries : List (Key × Value)) :
    (replaceEntries key value entries).lookup query =
      if query = key then (entries.lookup key).map fun _ => value
      else entries.lookup query := by
  induction entries with
  | nil => simp [replaceEntries]
  | cons entry rest ih =>
      obtain ⟨entryKey, entryValue⟩ := entry
      simp only [replaceEntries, List.map_cons] at ih ⊢
      by_cases hentry : entryKey = key
      · subst hentry
        by_cases hquery : query = entryKey
        · simp [hquery]
        · have hbeq : (query == entryKey) = false := by simpa using hquery
          simpa [List.lookup_cons, hbeq, hquery] using ih
      · by_cases hquery : query = key
        · subst hquery
          have hbeq : (query == entryKey) = false := by simpa using Ne.symm hentry
          simpa [List.lookup_cons, hentry, hbeq] using ih
        · simp only [if_neg hentry, List.lookup_cons, if_neg hquery] at ih ⊢
          rw [ih]

@[simp] theorem get?_set_self (table : PropertyTable Key Value) (key : Key) (value : Value) :
    (table.set key value).get? key = some value := by
  unfold set
  split
  next hmem =>
    obtain ⟨old, hold⟩ := (table.mem_keys_iff key).mp hmem
    have hlookup : table.entries.lookup key = some old := hold
    simp [get?, lookup_replaceEntries, hlookup]
  next hmem =>
    have hlookup : table.entries.lookup key = none := (table.get?_eq_none_iff key).mpr hmem
    simp [get?, List.lookup_append, hlookup]

theorem get?_set_of_ne (table : PropertyTable Key Value) {key query : Key} (value : Value)
    (hne : query ≠ key) : (table.set key value).get? query = table.get? query := by
  unfold set
  split
  next => simp [get?, lookup_replaceEntries, hne]
  next =>
    have hbeq : (query == key) = false := by simpa using hne
    simp [get?, List.lookup_append, List.lookup_cons, hbeq]

private theorem lookup_filter_ne (key query : Key) (entries : List (Key × Value)) :
    (entries.filter fun entry => entry.1 ≠ key).lookup query =
      if query = key then none else entries.lookup query := by
  induction entries with
  | nil => simp
  | cons entry rest ih =>
      obtain ⟨entryKey, entryValue⟩ := entry
      by_cases hentry : entryKey = key
      · subst hentry
        rw [List.filter_cons_of_neg (by simp), ih]
        by_cases hquery : query = entryKey
        · simp [hquery]
        · have hbeq : (query == entryKey) = false := by simpa using hquery
          simp [List.lookup_cons, hbeq]
      · rw [List.filter_cons_of_pos (by simpa using hentry), List.lookup_cons, ih]
        by_cases hquery : query = key
        · subst hquery
          have hbeq : (query == entryKey) = false := by simpa using Ne.symm hentry
          simp [hbeq]
        · simp [hquery, List.lookup_cons]

@[simp] theorem get?_erase_self (table : PropertyTable Key Value) (key : Key) :
    (table.erase key).get? key = none := by
  have h := lookup_filter_ne key key table.entries
  rw [if_pos rfl] at h
  exact h

theorem get?_erase_of_ne (table : PropertyTable Key Value) {key query : Key}
    (hne : query ≠ key) : (table.erase key).get? query = table.get? query := by
  have h := lookup_filter_ne key query table.entries
  rw [if_neg hne] at h
  exact h

/-! ## Key order -/

theorem keys_set_of_mem (table : PropertyTable Key Value) {key : Key} (value : Value)
    (hmem : key ∈ table.keys) : (table.set key value).keys = table.keys := by
  unfold set
  rw [dif_pos hmem]
  exact replaceEntries_keys key value table.entries

theorem keys_set_of_not_mem (table : PropertyTable Key Value) {key : Key} (value : Value)
    (hmem : key ∉ table.keys) : (table.set key value).keys = table.keys ++ [key] := by
  unfold set
  rw [dif_neg hmem]
  simp [keys]

theorem keys_erase (table : PropertyTable Key Value) (key : Key) :
    (table.erase key).keys = table.keys.filter fun other => other ≠ key := by
  unfold erase keys
  rw [List.filter_map]
  rfl

/-! ## Composing writes -/

/-- Writing a key twice leaves only the second value, in the same place. -/
theorem set_set (table : PropertyTable Key Value) (key : Key) (first second : Value) :
    (table.set key first).set key second = table.set key second := by
  have hmem : key ∈ (table.set key first).keys :=
    ((table.set key first).mem_keys_iff key).mpr ⟨first, table.get?_set_self key first⟩
  apply ext
  conv_lhs => rw [set, dif_pos hmem]
  by_cases hkey : key ∈ table.keys
  · simp only [set, dif_pos hkey, replaceEntries, List.map_map]
    apply List.map_congr_left
    intro entry _
    by_cases hentry : entry.1 = key <;> simp [hentry]
  · simp only [set, dif_neg hkey, replaceEntries, List.map_append, List.map_cons, List.map_nil,
      if_true]
    congr 1
    conv_rhs => rw [← List.map_id table.entries]
    apply List.map_congr_left
    intro entry hentry
    have hne : entry.1 ≠ key := fun heq => hkey (heq ▸ List.mem_map_of_mem hentry)
    simp [hne]

private theorem replaceEntries_of_lookup {key : Key} {value : Value}
    {entries : List (Key × Value)} (hnodup : (entries.map Prod.fst).Nodup)
    (h : entries.lookup key = some value) : replaceEntries key value entries = entries := by
  induction entries with
  | nil => cases h
  | cons entry rest ih =>
      obtain ⟨entryKey, entryValue⟩ := entry
      rw [List.map_cons, List.nodup_cons] at hnodup
      simp only [replaceEntries, List.map_cons] at ih ⊢
      by_cases hkey : entryKey = key
      · subst hkey
        -- no other pair has the key
        have hrest : ∀ other ∈ rest, (if other.1 = entryKey then (entryKey, value) else other) =
            other := fun other hother => by
          have hne : other.1 ≠ entryKey := fun heq =>
            hnodup.1 (List.mem_map.mpr ⟨other, hother, heq⟩)
          rw [if_neg hne]
        rw [List.lookup_cons_self, Option.some.injEq] at h
        rw [List.map_congr_left hrest, List.map_id', h, if_pos rfl]
      · have hbeq : (key == entryKey) = false := by simpa using Ne.symm hkey
        rw [List.lookup_cons, hbeq] at h
        rw [ih hnodup.2 h, if_neg hkey]

/-- Writing the value that is there already changes nothing. -/
theorem set_of_get? (table : PropertyTable Key Value) {key : Key} {value : Value}
    (h : table.get? key = some value) : table.set key value = table := by
  apply ext
  rw [set, dif_pos ((table.mem_keys_iff key).mpr ⟨value, h⟩)]
  exact replaceEntries_of_lookup table.nodup h

theorem erase_of_not_mem (table : PropertyTable Key Value) {key : Key}
    (hmem : key ∉ table.keys) : table.erase key = table := by
  apply ext
  unfold erase
  apply List.filter_eq_self.mpr
  intro entry hentry
  have hne : entry.1 ≠ key := fun heq => hmem (heq ▸ List.mem_map_of_mem hentry)
  simpa using hne

/-- Deleting a key forgets whatever was written under it. -/
theorem erase_set (table : PropertyTable Key Value) (key : Key) (value : Value) :
    (table.set key value).erase key = table.erase key := by
  apply ext
  by_cases hkey : key ∈ table.keys
  · simp only [erase, set, dif_pos hkey, replaceEntries]
    induction table.entries with
    | nil => rfl
    | cons entry rest ih =>
        by_cases hentry : entry.1 = key
        · simpa [hentry] using ih
        · simpa [hentry] using ih
  · simp [erase, set, dif_neg hkey]

end PropertyTable

end Foundation
