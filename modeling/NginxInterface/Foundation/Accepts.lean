import Mathlib.Data.List.Induction
import Mathlib.Tactic.Tauto

/-! # Checks

A computation that either fails or returns a value can be a check: there is a condition under
which it succeeds, and the value is known then. `Accepts` says both at once, and its rules
follow the ways in which checks are put together.
-/

namespace Foundation

variable {ε α β σ ι : Type}

/-- The outcome is a success exactly if `p` holds, and then with `value`. -/
def Accepts (outcome : Except ε α) (p : Prop) (value : α) : Prop :=
  ∀ result, outcome = .ok result ↔ p ∧ result = value

namespace Accepts

variable {outcome : Except ε α} {p q : Prop} {value : α}

theorem eq_ok (h : Accepts outcome p value) (hp : p) : outcome = .ok value :=
  (h value).mpr ⟨hp, rfl⟩

theorem eq_error (h : Accepts outcome p value) (hp : ¬p) : ∃ e, outcome = .error e := by
  cases houtcome : outcome with
  | ok result => exact absurd ((h result).mp houtcome).1 hp
  | error e => exact ⟨e, rfl⟩

theorem congr (h : Accepts outcome p value) (hpq : p ↔ q) : Accepts outcome q value :=
  fun result => (h result).trans (and_congr_left' hpq)

theorem cast {other : α} (h : Accepts outcome p value) (hpq : p ↔ q) (hvalue : value = other) :
    Accepts outcome q other :=
  hvalue ▸ h.congr hpq

theorem of_eq_ok (h : outcome = .ok value) : Accepts outcome True value := by
  intro result
  rw [h, true_and]
  constructor
  · exact fun heq => (Except.ok.inj heq).symm
  · exact fun heq => congrArg Except.ok heq.symm

theorem of_refused (h : ∀ result, outcome ≠ .ok result) (hp : ¬p) : Accepts outcome p value :=
  fun result => iff_of_false (h result) fun hand => hp hand.1

theorem ne_ok (h : Accepts outcome p value) (hp : ¬p) (result : α) : outcome ≠ .ok result :=
  fun hok => hp ((h result).mp hok).1

theorem error (e : ε) (hp : ¬p) : Accepts (.error e) p value :=
  of_refused (fun _ heq => by cases heq) hp

/-- The second check may rely on the first one. -/
theorem bind {f : α → Except ε β} {other : β} (h : Accepts outcome p value)
    (hf : p → Accepts (f value) q other) : Accepts (outcome >>= f) (p ∧ q) other := by
  intro result
  by_cases hp : p
  · rw [h.eq_ok hp]
    exact (hf hp result).trans (by rw [and_iff_right hp])
  · obtain ⟨e, herror⟩ := h.eq_error hp
    rw [herror]
    exact error e (fun hand => hp hand.1) result

theorem map {f : α → β} (h : Accepts outcome p value) :
    Accepts (outcome.map f) p (f value) := by
  by_cases hp : p
  · exact (of_eq_ok (by rw [h.eq_ok hp]; rfl)).congr (iff_of_true trivial hp)
  · obtain ⟨e, herror⟩ := h.eq_error hp
    rw [herror]
    exact error e hp

theorem ite {c : Prop} [Decidable c] (h : c → Accepts outcome p value) (e : ε) :
    Accepts (if c then outcome else .error e) (c ∧ p) value := by
  split
  next hc => exact (h hc).congr (by rw [and_iff_right hc])
  next hc => exact error e fun hand => hc hand.1

theorem ite_not {c : Prop} [Decidable c] (h : ¬c → Accepts outcome p value) (e : ε) :
    Accepts (if c then .error e else outcome) (¬c ∧ p) value := by
  split
  next hc => exact error e fun hand => hand.1 hc
  next hc => exact (h hc).congr (by rw [and_iff_right hc])

/-! ## Lists -/

section Lists

variable {step : σ → ι → Except ε σ} {start middle last : σ}

theorem foldlM_append {front back : List ι} (hfront : Accepts (front.foldlM step start) p middle)
    (hback : p → Accepts (back.foldlM step middle) q last) :
    Accepts ((front ++ back).foldlM step start) (p ∧ q) last := by
  rw [List.foldlM_append]
  exact hfront.bind hback

theorem foldlM_cons {item : ι} {rest : List ι} (hitem : Accepts (step start item) p middle)
    (hrest : p → Accepts (rest.foldlM step middle) q last) :
    Accepts ((item :: rest).foldlM step start) (p ∧ q) last := by
  rw [List.foldlM_cons]
  exact hitem.bind hrest

theorem foldlM_singleton {item : ι} (h : Accepts (step start item) p last) :
    Accepts ([item].foldlM step start) p last :=
  (foldlM_cons h fun _ => of_eq_ok rfl).congr (iff_of_eq (and_true p))

/-- Groups of items that are taken one after the other. Each is checked on its own and against
the earlier ones, and `state` is what the groups so far have led to. -/
theorem foldlM_flatMap {κ : Type} {items : κ → List ι} {state : List κ → σ} {good : κ → Prop}
    {apart : κ → κ → Prop} (groups : List κ)
    (h : ∀ front, ∀ group ∈ groups,
      Accepts ((items group).foldlM step (state front))
        (good group ∧ ∀ earlier ∈ front, apart earlier group) (state (front ++ [group]))) :
    Accepts ((groups.flatMap items).foldlM step (state []))
      ((∀ group ∈ groups, good group) ∧ groups.Pairwise apart) (state groups) := by
  induction groups using List.reverseRecOn with
  | nil => exact (of_eq_ok rfl).congr (by simp)
  | append_singleton front group ih =>
      rw [List.flatMap_append, List.flatMap_singleton]
      have hfront := ih fun earlier other hother => h earlier other (List.mem_append_left _ hother)
      refine (hfront.foldlM_append fun _ =>
        h front group (List.mem_append_right _ List.mem_cons_self)).congr ?_
      rw [List.forall_mem_append, List.pairwise_append]
      simp only [List.mem_singleton, forall_eq, List.pairwise_singleton, true_and]
      tauto

theorem mapM {f : ι → Except ε α} {good : ι → Prop} {val : ι → α} {items : List ι}
    (h : ∀ item ∈ items, Accepts (f item) (good item) (val item)) :
    Accepts (items.mapM f) (∀ item ∈ items, good item) (items.map val) := by
  induction items with
  | nil => exact (of_eq_ok rfl).congr (by simp)
  | cons item rest ih =>
      rw [List.mapM_cons]
      have hrest := ih fun other hother => h other (List.mem_cons_of_mem _ hother)
      refine ((h item List.mem_cons_self).bind fun _ => hrest.map).congr ?_
      rw [List.forall_mem_cons]

end Lists

end Accepts

end Foundation
