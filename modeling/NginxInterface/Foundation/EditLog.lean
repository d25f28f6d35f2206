import Mathlib.Data.List.Induction
import Mathlib.Data.List.Nodup

/-! # Logs of insertions and removals

A log records insertions of keys, each with a payload, and removals. What is live at
its end, since when, and which insertion last opened the empty set are stated on the
log alone. The ordered list of live keys and the payload of the opening insertion
can also be computed entry by entry, and the two views agree.
-/

namespace Foundation

inductive Edit (Payload Key : Type) where
  | insert (payload : Payload) (key : Key)
  | remove (key : Key)

namespace Edit

variable {Payload Key : Type}

/-! ## What the log says -/

/-- The key has been inserted and not removed since. -/
def Live (log : List (Edit Payload Key)) (key : Key) : Prop :=
  ∃ before payload after, log = before ++ insert payload key :: after ∧ remove key ∉ after

/-- The entry at the given position made the key live, and it has been so since. -/
def Born (log : List (Edit Payload Key)) (key : Key) (position : Nat) : Prop :=
  (∃ payload, log[position]? = some (insert payload key)) ∧ ¬Live (log.take position) key ∧
    ∀ later, position < later → log[later]? ≠ some (remove key)

def BornBefore (log : List (Edit Payload Key)) (left right : Key) : Prop :=
  ∃ first second, Born log left first ∧ Born log right second ∧ first < second

/-- The entry that last found nothing live was an insertion with this payload. -/
def OpenedBy (log : List (Edit Payload Key)) (payload : Payload) : Prop :=
  ∃ position key, log[position]? = some (insert payload key) ∧
    (∀ other, ¬Live (log.take position) other) ∧
    ∀ later, position < later → later ≤ log.length → ∃ other, Live (log.take later) other

/-! ## One more entry -/

theorem live_concat_insert (log : List (Edit Payload Key)) (payload : Payload)
    (key other : Key) :
    Live (log ++ [insert payload key]) other ↔ other = key ∨ Live log other := by
  constructor
  · rintro ⟨before, found, after, hlog, hafter⟩
    rcases List.eq_nil_or_concat after with rfl | ⟨rest, last, rfl⟩
    · obtain ⟨_, hlast⟩ := List.append_inj' hlog rfl
      cases hlast
      exact Or.inl rfl
    · rw [List.concat_eq_append, ← List.cons_append, ← List.append_assoc] at hlog
      obtain ⟨hfront, _⟩ := List.append_inj' hlog rfl
      refine Or.inr ⟨before, found, rest, hfront, fun hmem => hafter ?_⟩
      rw [List.concat_eq_append]
      exact List.mem_append_left _ hmem
  · rintro (rfl | ⟨before, found, after, rfl, hafter⟩)
    · exact ⟨log, payload, [], rfl, by simp⟩
    · refine ⟨before, found, after ++ [insert payload key], by simp, ?_⟩
      simpa using hafter

theorem live_concat_remove (log : List (Edit Payload Key)) (key other : Key) :
    Live (log ++ [remove key]) other ↔ other ≠ key ∧ Live log other := by
  constructor
  · rintro ⟨before, found, after, hlog, hafter⟩
    rcases List.eq_nil_or_concat after with rfl | ⟨rest, last, rfl⟩
    · obtain ⟨_, hlast⟩ := List.append_inj' hlog rfl
      cases hlast
    · rw [List.concat_eq_append, ← List.cons_append, ← List.append_assoc] at hlog
      obtain ⟨hfront, hlast⟩ := List.append_inj' hlog rfl
      cases hlast
      rw [List.concat_eq_append, List.mem_append, not_or] at hafter
      refine ⟨fun heq => hafter.2 ?_, before, found, rest, hfront, hafter.1⟩
      rw [heq]
      exact List.mem_singleton_self _
  · rintro ⟨hne, before, found, after, rfl, hafter⟩
    refine ⟨before, found, after ++ [remove key], by simp, ?_⟩
    simp [hafter, hne]

theorem not_live_nil (key : Key) : ¬Live ([] : List (Edit Payload Key)) key := by
  rintro ⟨before, payload, after, hlog, _⟩
  simp at hlog

/-- A birth is not undone by an entry that does not remove the key. -/
theorem Born.concat {log : List (Edit Payload Key)} {key : Key} {position : Nat}
    (h : Born log key position) {entry : Edit Payload Key} (hentry : entry ≠ remove key) :
    Born (log ++ [entry]) key position := by
  obtain ⟨⟨payload, hposition⟩, hbefore, hafter⟩ := h
  have hlt : position < log.length := (List.getElem?_eq_some_iff.mp hposition).1
  refine ⟨⟨payload, ?_⟩, ?_, ?_⟩
  · rw [List.getElem?_append_left hlt]
    exact hposition
  · rwa [List.take_append_of_le_length (Nat.le_of_lt hlt)]
  · intro later hlater hremove
    rcases Nat.lt_trichotomy later log.length with hin | rfl | hout
    · rw [List.getElem?_append_left hin] at hremove
      exact hafter later hlater hremove
    · rw [List.getElem?_concat_length, Option.some.injEq] at hremove
      exact hentry hremove
    · rw [List.getElem?_eq_none (by rw [List.length_append, List.length_singleton]; omega)]
        at hremove
      cases hremove

/-- An insertion of a key that is not live gives birth to it. -/
theorem born_concat {log : List (Edit Payload Key)} (payload : Payload) {key : Key}
    (h : ¬Live log key) : Born (log ++ [insert payload key]) key log.length := by
  refine ⟨⟨payload, List.getElem?_concat_length⟩, ?_, ?_⟩
  · rwa [List.take_append_of_le_length (Nat.le_refl _), List.take_length]
  · intro later hlater
    rw [List.getElem?_eq_none (by rw [List.length_append, List.length_singleton]; omega)]
    simp

/-- The opening stays the same while something is live. -/
theorem OpenedBy.concat {log : List (Edit Payload Key)} {payload : Payload}
    (h : OpenedBy log payload) {entry : Edit Payload Key}
    (hlive : ∃ other, Live (log ++ [entry]) other) : OpenedBy (log ++ [entry]) payload := by
  obtain ⟨position, key, hposition, hbefore, hafter⟩ := h
  have hlt : position < log.length := (List.getElem?_eq_some_iff.mp hposition).1
  refine ⟨position, key, ?_, ?_, ?_⟩
  · rw [List.getElem?_append_left hlt]
    exact hposition
  · rwa [List.take_append_of_le_length (Nat.le_of_lt hlt)]
  · intro later hlater hlength
    rcases Nat.lt_or_ge log.length later with hout | hin
    · rw [List.length_append, List.length_singleton] at hlength
      rwa [List.take_of_length_le (by rw [List.length_append, List.length_singleton]; omega)]
    · rw [List.take_append_of_le_length hin]
      exact hafter later hlater hin

theorem openedBy_concat {log : List (Edit Payload Key)} (payload : Payload) (key : Key)
    (h : ∀ other, ¬Live log other) : OpenedBy (log ++ [insert payload key]) payload := by
  refine ⟨log.length, key, List.getElem?_concat_length, ?_, ?_⟩
  · rwa [List.take_append_of_le_length (Nat.le_refl _), List.take_length]
  · intro later hlater hlength
    rw [List.take_of_length_le (by rw [List.length_append, List.length_singleton]; omega)]
    exact ⟨key, (live_concat_insert log payload key key).mpr (Or.inl rfl)⟩

/-! ## Computing it entry by entry -/

variable [DecidableEq Key]

/-- The live keys in the order of their births. -/
def apply (keys : List Key) : Edit Payload Key → List Key
  | insert _ key => if key ∈ keys then keys else keys ++ [key]
  | remove key => keys.filter fun other => !decide (other = key)

def liveKeys (log : List (Edit Payload Key)) : List Key := log.foldl apply []

/-- The payload of the insertion that last found nothing live. -/
def reopen (state : List Key × Option Payload) (entry : Edit Payload Key) :
    List Key × Option Payload :=
  (apply state.1 entry,
    match entry with
    | insert payload _ => if state.1 = [] then some payload else state.2
    | remove _ => state.2)

def opening (log : List (Edit Payload Key)) : Option Payload :=
  (log.foldl reopen ([], none)).2

theorem liveKeys_concat (log : List (Edit Payload Key)) (entry : Edit Payload Key) :
    liveKeys (log ++ [entry]) = apply (liveKeys log) entry := by
  rw [liveKeys, List.foldl_append]
  rfl

theorem reopen_fst (log : List (Edit Payload Key)) :
    (log.foldl reopen ([], none)).1 = liveKeys log := by
  induction log using List.reverseRecOn with
  | nil => rfl
  | append_singleton log entry ih =>
      rw [liveKeys_concat, List.foldl_append, ← ih]
      rfl

theorem opening_insert (log : List (Edit Payload Key)) (payload : Payload) (key : Key) :
    opening (log ++ [insert payload key]) =
      if liveKeys log = [] then some payload else opening log := by
  rw [opening, List.foldl_append, ← reopen_fst]
  rfl

theorem opening_remove (log : List (Edit Payload Key)) (key : Key) :
    opening (log ++ [remove key]) = opening log := by
  rw [opening, List.foldl_append]
  rfl

theorem mem_liveKeys {log : List (Edit Payload Key)} {key : Key} :
    key ∈ liveKeys log ↔ Live log key := by
  induction log using List.reverseRecOn with
  | nil => exact iff_of_false List.not_mem_nil (not_live_nil key)
  | append_singleton log entry ih =>
      rw [liveKeys_concat]
      cases entry with
      | insert payload inserted =>
          rw [live_concat_insert, ← ih, apply]
          split
          next hmem =>
            exact ⟨Or.inr, fun h => h.elim (fun heq => heq ▸ hmem) id⟩
          next => rw [List.mem_append, List.mem_singleton, or_comm]
      | remove removed =>
          rw [live_concat_remove, ← ih, apply, List.mem_filter]
          simp [and_comm]

theorem liveKeys_eq_nil_iff {log : List (Edit Payload Key)} :
    liveKeys log = [] ↔ ∀ key, ¬Live log key := by
  rw [List.eq_nil_iff_forall_not_mem]
  exact forall_congr' fun key => not_congr mem_liveKeys

theorem liveKeys_nodup (log : List (Edit Payload Key)) : (liveKeys log).Nodup := by
  induction log using List.reverseRecOn with
  | nil => exact List.nodup_nil
  | append_singleton log entry ih =>
      rw [liveKeys_concat]
      cases entry with
      | insert payload key =>
          rw [apply]
          split
          next => exact ih
          next hmem => exact List.nodup_append_comm.mp (List.nodup_cons.mpr ⟨hmem, ih⟩)
      | remove key => exact ih.filter _

/-- Every live key has been born, and the births are in the order of the list. -/
theorem liveKeys_born (log : List (Edit Payload Key)) :
    (∀ key ∈ liveKeys log, ∃ position, Born log key position) ∧
      (liveKeys log).Pairwise (BornBefore log) := by
  -- on the last edit: both edits keep the births of the keys they leave alive
  induction log using List.reverseRecOn with
  | nil => exact ⟨fun _ h => absurd h List.not_mem_nil, List.Pairwise.nil⟩
  | append_singleton log entry ih =>
      obtain ⟨hborn, hordered⟩ := ih
      rw [liveKeys_concat]
      cases entry with
      | insert payload key =>
          have hkept : ∀ other ∈ liveKeys log, ∃ position,
              Born (log ++ [insert payload key]) other position ∧ position < log.length := by
            intro other hother
            obtain ⟨position, hposition⟩ := hborn other hother
            obtain ⟨_, hentry⟩ := hposition.1
            exact ⟨position, hposition.concat (by simp), (List.getElem?_eq_some_iff.mp hentry).1⟩
          have hpairs : (liveKeys log).Pairwise (BornBefore (log ++ [insert payload key])) :=
            hordered.imp fun {left right} ⟨first, second, hfirst, hsecond, hlt⟩ =>
              ⟨first, second, hfirst.concat (by simp), hsecond.concat (by simp), hlt⟩
          rw [apply]
          split
          next => exact ⟨fun other hother => (hkept other hother).imp fun _ h => h.1, hpairs⟩
          next hmem =>
            -- a key that was not alive is born by this edit, after every birth before it
            have hnew := born_concat payload fun hlive => hmem (mem_liveKeys.mpr hlive)
            constructor
            · intro other hother
              rcases List.mem_append.mp hother with hold | hlast
              · exact (hkept other hold).imp fun _ h => h.1
              · rw [List.mem_singleton.mp hlast]
                exact ⟨_, hnew⟩
            · refine List.pairwise_append.mpr ⟨hpairs, List.pairwise_singleton _ _, ?_⟩
              intro left hleft right hright
              obtain ⟨position, hposition, hlt⟩ := hkept left hleft
              rw [List.mem_singleton.mp hright]
              exact ⟨position, log.length, hposition, hnew, hlt⟩
      | remove key =>
          have hkept : ∀ {other : Key} {position : Nat}, other ≠ key → Born log other position →
              Born (log ++ [remove key]) other position :=
            fun hne hposition => hposition.concat fun heq => hne (remove.inj heq).symm
          constructor
          · intro other hother
            obtain ⟨hmem, hne⟩ := List.mem_filter.mp hother
            exact (hborn other hmem).imp fun _ hposition => hkept (by simpa using hne) hposition
          · refine (hordered.filter _).imp_of_mem ?_
            rintro left right hleft hright ⟨first, second, hfirst, hsecond, hlt⟩
            exact ⟨first, second, hkept (by simpa using (List.mem_filter.mp hleft).2) hfirst,
              hkept (by simpa using (List.mem_filter.mp hright).2) hsecond, hlt⟩

/-- While something is live, the computed payload is that of the opening. -/
theorem opening_of_live {log : List (Edit Payload Key)} (h : liveKeys log ≠ []) :
    ∃ payload, opening log = some payload ∧ OpenedBy log payload := by
  induction log using List.reverseRecOn with
  | nil => exact absurd rfl h
  | append_singleton log entry ih =>
      have hlive : ∃ other, Live (log ++ [entry]) other := by
        by_contra hnone
        exact h (liveKeys_eq_nil_iff.mpr fun other hother => hnone ⟨other, hother⟩)
      cases entry with
      | insert payload key =>
          rw [opening_insert]
          split
          next hempty =>
            exact ⟨payload, rfl, openedBy_concat payload key (liveKeys_eq_nil_iff.mp hempty)⟩
          next hempty =>
            obtain ⟨found, hfound, hopened⟩ := ih hempty
            exact ⟨found, hfound, hopened.concat hlive⟩
      | remove key =>
          have hbefore : liveKeys log ≠ [] := by
            intro hempty
            rw [liveKeys_concat, hempty] at h
            exact h rfl
          obtain ⟨found, hfound, hopened⟩ := ih hbefore
          exact ⟨found, by rw [opening_remove, hfound], hopened.concat hlive⟩

end Edit

end Foundation
