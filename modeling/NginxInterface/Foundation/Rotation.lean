import Mathlib.Algebra.BigOperators.Group.Finset.Piecewise
import Mathlib.Algebra.BigOperators.Ring.Finset
import Mathlib.Algebra.Order.BigOperators.Group.Finset
import Mathlib.Data.Fintype.BigOperators
import Mathlib.Data.Fintype.Lattice
import Mathlib.Logic.Function.Iterate
import Mathlib.Tactic.Linarith
import Mathlib.Tactic.Ring

/-! # Smooth weighted rotation

Members of a finite type take turns. Before each turn every member gains its weight;
a member with the largest credit is chosen and pays the weights of all. Over as many
turns as the weights add up to, each member is chosen as often as its weight says,
however ties are broken. If ties are broken by a function of the credits, the same
holds for every stretch of that length.
-/

namespace Foundation

namespace Rotation

variable {Member : Type} [Fintype Member]

def total (weight : Member → ℕ) : ℕ := ∑ member, weight member

/-- After gaining their weights, nobody has more credit than `chosen`. -/
def Leads (weight : Member → ℕ) (credit : Member → ℤ) (chosen : Member) : Prop :=
  ∀ member, credit member + weight member ≤ credit chosen + weight chosen

/-- The credits add up to nothing, and nobody owes a whole round. -/
structure Balanced (weight : Member → ℕ) (credit : Member → ℤ) : Prop where
  sum_eq_zero : ∑ member, credit member = 0
  owes_less : ∀ member, -(total weight : ℤ) < credit member

theorem balanced_zero {weight : Member → ℕ} (hpos : 0 < total weight) :
    Balanced weight fun _ => 0 where
  sum_eq_zero := Finset.sum_const_zero
  owes_less := fun _ => by omega

/-- The chosen member has positive credit before it pays, since it has at least the
average. -/
theorem Leads.pos {weight : Member → ℕ} {credit : Member → ℤ} {chosen : Member}
    (hpos : 0 < total weight) (hsum : ∑ member, credit member = 0)
    (hleads : Leads weight credit chosen) : 0 < credit chosen + weight chosen := by
  by_contra hnot
  have hnone : ∀ member ∈ Finset.univ, credit member + (weight member : ℤ) ≤ 0 :=
    fun member _ => (hleads member).trans (not_lt.mp hnot)
  have hgain : ∑ member, (credit member + (weight member : ℤ)) = total weight := by
    rw [Finset.sum_add_distrib, hsum, zero_add, total, Nat.cast_sum]
  have hle := Finset.sum_nonpos hnone
  omega

/-- Nobody can be owed more than the others may owe. -/
theorem Balanced.credit_add_weight_le {weight : Member → ℕ} {credit : Member → ℤ}
    (h : Balanced weight credit) (member : Member) :
    credit member + weight member ≤ (Fintype.card Member * total weight : ℕ) := by
  have hterms : ∀ other ∈ Finset.univ, 0 ≤ credit other + (total weight : ℤ) := by
    intro other _
    have howes := h.owes_less other
    omega
  have hsum : ∑ other, (credit other + (total weight : ℤ)) =
      (Fintype.card Member * total weight : ℕ) := by
    rw [Finset.sum_add_distrib, h.sum_eq_zero, zero_add, Finset.sum_const, Finset.card_univ,
      nsmul_eq_mul, Nat.cast_mul]
  have hone := Finset.single_le_sum hterms (Finset.mem_univ member)
  have hweight : weight member ≤ total weight :=
    Finset.single_le_sum (fun other _ => Nat.zero_le (weight other)) (Finset.mem_univ member)
  rw [hsum] at hone
  omega

variable [DecidableEq Member]

def afterTurn (weight : Member → ℕ) (credit : Member → ℤ) (chosen : Member) : Member → ℤ :=
  fun member =>
    credit member + weight member - if member = chosen then (total weight : ℤ) else 0

/-- Turns in which the members of a list are chosen in order. -/
def Turns (weight : Member → ℕ) : (Member → ℤ) → List Member → (Member → ℤ) → Prop
  | credit, [], final => final = credit
  | credit, chosen :: rest, final =>
      Leads weight credit chosen ∧ Turns weight (afterTurn weight credit chosen) rest final

/-! ## Credits -/

/-- A member has gained its weight in every turn and paid in every turn of its own. -/
theorem credit_of_turns {weight : Member → ℕ} {credit final : Member → ℤ}
    {chosen : List Member} (hturns : Turns weight credit chosen final) (member : Member) :
    final member =
      credit member + chosen.length * weight member - total weight * chosen.count member := by
  induction chosen generalizing credit with
  | nil =>
      rw [Turns] at hturns
      simp [hturns]
  | cons first rest ih =>
      rw [ih hturns.2, afterTurn, List.length_cons, List.count_cons]
      by_cases hfirst : member = first
      · simp only [hfirst, if_true, beq_self_eq_true]
        push_cast
        ring
      · have hother : (first == member) = false := by simpa using Ne.symm hfirst
        simp only [hfirst, if_false, hother, Bool.false_eq_true]
        push_cast
        ring

theorem sum_afterTurn (weight : Member → ℕ) (credit : Member → ℤ) (chosen : Member) :
    ∑ member, afterTurn weight credit chosen member = ∑ member, credit member := by
  have hpaid : ∑ member, (if member = chosen then (total weight : ℤ) else 0) = total weight := by
    rw [Finset.sum_ite_eq', if_pos (Finset.mem_univ chosen)]
  have hgained : ∑ member, (weight member : ℤ) = total weight := (Nat.cast_sum _ _).symm
  simp only [afterTurn, Finset.sum_sub_distrib, Finset.sum_add_distrib, hpaid, hgained,
    add_sub_cancel_right]

theorem Balanced.afterTurn {weight : Member → ℕ} {credit : Member → ℤ} {chosen : Member}
    (hpos : 0 < total weight) (h : Balanced weight credit) (hleads : Leads weight credit chosen) :
    Balanced weight (afterTurn weight credit chosen) where
  sum_eq_zero := by rw [sum_afterTurn, h.sum_eq_zero]
  owes_less := by
    intro member
    unfold Rotation.afterTurn
    by_cases hchosen : member = chosen
    · have hcredit := hleads.pos hpos h.sum_eq_zero
      rw [if_pos hchosen, hchosen]
      omega
    · have hbefore := h.owes_less member
      rw [if_neg hchosen]
      omega

theorem Balanced.turns {weight : Member → ℕ} {credit final : Member → ℤ} {chosen : List Member}
    (hpos : 0 < total weight) (h : Balanced weight credit)
    (hturns : Turns weight credit chosen final) : Balanced weight final := by
  induction chosen generalizing credit with
  | nil =>
      rw [Turns] at hturns
      exact hturns ▸ h
  | cons first rest ih => exact ih (h.afterTurn hpos hturns.1) hturns.2

/-! ## Counts -/

/-- At no time is a member a whole turn ahead of its share. -/
theorem count_lt_of_turns {weight : Member → ℕ} {final : Member → ℤ} {chosen : List Member}
    (hpos : 0 < total weight) (hturns : Turns weight (fun _ => 0) chosen final)
    (member : Member) :
    total weight * chosen.count member < chosen.length * weight member + total weight := by
  have hbound := ((balanced_zero hpos).turns hpos hturns).owes_less member
  rw [credit_of_turns hturns member] at hbound
  have hcast : ((total weight * chosen.count member : ℕ) : ℤ) <
      ((chosen.length * weight member + total weight : ℕ) : ℤ) := by
    push_cast
    linarith
  exact_mod_cast hcast

/-- A round gives every member its turns and ends where it began. -/
theorem count_of_round {weight : Member → ℕ} {final : Member → ℤ} {chosen : List Member}
    (hpos : 0 < total weight) (hturns : Turns weight (fun _ => 0) chosen final)
    (hround : chosen.length = total weight) (member : Member) :
    chosen.count member = weight member ∧ final member = 0 := by
  have hfinal : ∀ other, final other =
      total weight * ((weight other : ℤ) - chosen.count other) := by
    intro other
    rw [credit_of_turns hturns other, hround]
    ring
  -- nobody is ahead of its share
  have hnonneg : ∀ other ∈ Finset.univ, 0 ≤ (weight other : ℤ) - chosen.count other := by
    intro other _
    have hlt := count_lt_of_turns hpos hturns other
    rw [hround, ← Nat.mul_succ] at hlt
    have hle := Nat.lt_succ_iff.mp (Nat.lt_of_mul_lt_mul_left hlt)
    omega
  -- the shares add up, so that nobody is behind either
  have hsum : ∑ other, ((weight other : ℤ) - chosen.count other) = 0 := by
    have hzero := ((balanced_zero hpos).turns hpos hturns).sum_eq_zero
    simp only [hfinal, ← Finset.mul_sum] at hzero
    exact (mul_eq_zero.mp hzero).resolve_left (by exact_mod_cast hpos.ne')
  have hshare := (Finset.sum_eq_zero_iff_of_nonneg hnonneg).mp hsum member (Finset.mem_univ _)
  refine ⟨by omega, ?_⟩
  rw [hfinal member, hshare, mul_zero]

/-! ## A rule for ties -/

variable (weight : Member → ℕ) (pick : (Member → ℤ) → Member)

/-- The credits after a turn of the member that the rule picks. -/
def advance (credit : Member → ℤ) : Member → ℤ := afterTurn weight credit (pick credit)

/-- The members picked in the next turns. -/
def picks : ℕ → (Member → ℤ) → List Member
  | 0, _ => []
  | turns + 1, credit => pick credit :: picks turns (advance weight pick credit)

@[simp] theorem length_picks (turns : ℕ) (credit : Member → ℤ) :
    (picks weight pick turns credit).length = turns := by
  induction turns generalizing credit with
  | zero => rfl
  | succ turns ih => rw [picks, List.length_cons, ih]

theorem picks_add (first second : ℕ) (credit : Member → ℤ) :
    picks weight pick (first + second) credit =
      picks weight pick first credit ++
        picks weight pick second ((advance weight pick)^[first] credit) := by
  induction first generalizing credit with
  | zero => simp [picks]
  | succ first ih =>
      rw [Nat.succ_add, picks, picks, ih, List.cons_append, Function.iterate_succ_apply]

variable {weight pick}

theorem turns_picks (hpick : ∀ credit, Leads weight credit (pick credit)) (turns : ℕ)
    (credit : Member → ℤ) :
    Turns weight credit (picks weight pick turns credit)
      ((advance weight pick)^[turns] credit) := by
  induction turns generalizing credit with
  | zero => rfl
  | succ turns ih =>
      refine ⟨hpick credit, ?_⟩
      rw [Function.iterate_succ_apply]
      exact ih _

/-- After a round the credits are what they were, wherever the round began. -/
theorem iterate_round (hpick : ∀ credit, Leads weight credit (pick credit))
    (hpos : 0 < total weight) (before : ℕ) :
    (advance weight pick)^[total weight] ((advance weight pick)^[before] fun _ => 0) =
      (advance weight pick)^[before] fun _ => 0 := by
  have hzero : (advance weight pick)^[total weight] (fun _ => 0) = fun _ => 0 := by
    funext member
    exact (count_of_round hpos (turns_picks hpick _ _) (length_picks ..) member).2
  rw [← Function.iterate_add_apply, Nat.add_comm, Function.iterate_add_apply, hzero]

/-- Every stretch of a whole round gives each member its turns. -/
theorem count_of_window (hpick : ∀ credit, Leads weight credit (pick credit))
    (hpos : 0 < total weight) {turns : ℕ} {window : List Member}
    (hwindow : window <:+: picks weight pick turns fun _ => 0)
    (hround : window.length = total weight) (member : Member) :
    window.count member = weight member := by
  obtain ⟨before, after, hpicks⟩ := hwindow
  have hturns : turns = before.length + (total weight + after.length) := by
    rw [← length_picks weight pick turns fun _ => 0, ← hpicks, ← hround]
    simp
  have hwindow : window = picks weight pick (total weight)
      ((advance weight pick)^[before.length] fun _ => 0) := by
    rw [hturns, picks_add, picks_add, List.append_assoc] at hpicks
    have hrest := List.append_inj_right hpicks (length_picks ..).symm
    exact List.append_inj_left hrest (by rw [hround, length_picks])
  have hcredit := credit_of_turns (turns_picks hpick (total weight)
    ((advance weight pick)^[before.length] fun _ => 0)) member
  rw [iterate_round hpick hpos, ← hwindow, hround] at hcredit
  have hshare : (total weight : ℤ) * window.count member = total weight * weight member := by
    linarith
  exact_mod_cast mul_left_cancel₀ (by exact_mod_cast hpos.ne') hshare

/-! ## The first of the leaders -/

section First

variable {Member : Type} [LinearOrder Member] [Fintype Member]

/-- Of the members with the largest credit, `chosen` is the first. -/
structure LeadsFirst (weight : Member → ℕ) (credit : Member → ℤ) (chosen : Member) : Prop where
  leads : Leads weight credit chosen
  first : ∀ member, Leads weight credit member → chosen ≤ member

omit [Fintype Member] in
theorem LeadsFirst.unique {weight : Member → ℕ} {credit : Member → ℤ} {chosen other : Member}
    (h : LeadsFirst weight credit chosen) (hother : LeadsFirst weight credit other) :
    chosen = other :=
  le_antisymm (h.first other hother.leads) (hother.first chosen h.leads)

theorem exists_leadsFirst [Nonempty Member] (weight : Member → ℕ) (credit : Member → ℤ) :
    ∃ chosen, LeadsFirst weight credit chosen := by
  classical
  obtain ⟨leader, hleader⟩ := Finite.exists_max fun member => credit member + (weight member : ℤ)
  obtain ⟨chosen, hchosen, hfirst⟩ := Finset.exists_min_image
    (Finset.univ.filter (Leads weight credit)) id
    ⟨leader, Finset.mem_filter.mpr ⟨Finset.mem_univ _, hleader⟩⟩
  refine ⟨chosen, (Finset.mem_filter.mp hchosen).2, fun member hmember => ?_⟩
  exact hfirst member (Finset.mem_filter.mpr ⟨Finset.mem_univ _, hmember⟩)

noncomputable def firstLeader [Nonempty Member] (weight : Member → ℕ) (credit : Member → ℤ) :
    Member := (exists_leadsFirst weight credit).choose

theorem firstLeader_spec [Nonempty Member] (weight : Member → ℕ) (credit : Member → ℤ) :
    LeadsFirst weight credit (firstLeader weight credit) :=
  (exists_leadsFirst weight credit).choose_spec

end First

end Rotation

end Foundation
