import Mathlib.Data.List.Chain

/-! # Splicing a list while iterating over it

`forEach` fixes the number of visits before the first one and then visits
indices. A callback that removes the item it is visiting moves the next item to
the current index, so that item is never visited. The loop equals filtering
exactly when the skipped items would not have been removed.
-/

namespace Foundation

variable {Item Fault : Type}

/-- `list.forEach((item, i) => { if (test(item)) list.splice(i, 1); })`, with
the number of remaining visits and the current index. A fault in the test stops
the loop and keeps the removals made so far. -/
def spliceLoop (test : Item → Except Fault Bool) :
    (remaining index : Nat) → List Item → List Item × Except Fault Unit
  | 0, _, list => (list, .ok ())
  | remaining + 1, index, list =>
      match list[index]? with
      | none => spliceLoop test remaining (index + 1) list
      | some item =>
          match test item with
          | .error fault => (list, .error fault)
          | .ok true => spliceLoop test remaining (index + 1) (list.eraseIdx index)
          | .ok false => spliceLoop test remaining (index + 1) list

/-- The same removal by recursion on the list: a removed item shields its
successor. -/
def removeSkipping (test : Item → Except Fault Bool) :
    List Item → List Item × Except Fault Unit
  | [] => ([], .ok ())
  | [item] =>
      match test item with
      | .error fault => ([item], .error fault)
      | .ok true => ([], .ok ())
      | .ok false => ([item], .ok ())
  | item :: next :: rest =>
      match test item with
      | .error fault => (item :: next :: rest, .error fault)
      | .ok true =>
          let tail := removeSkipping test rest
          (next :: tail.1, tail.2)
      | .ok false =>
          let tail := removeSkipping test (next :: rest)
          (item :: tail.1, tail.2)

/-- Visits past the end of the list change nothing. -/
theorem spliceLoop_past_end (test : Item → Except Fault Bool) (remaining index : Nat)
    (list : List Item) (hend : list.length ≤ index) :
    spliceLoop test remaining index list = (list, .ok ()) := by
  induction remaining generalizing index with
  | zero => rfl
  | succ remaining ih =>
      rw [spliceLoop, List.getElem?_eq_none hend]
      exact ih (index + 1) (by omega)

/-- One visit, with the items before the current index set apart. -/
theorem spliceLoop_visit (test : Item → Except Fault Bool) (visited rest : List Item)
    (item : Item) (remaining : Nat) :
    spliceLoop test (remaining + 1) visited.length (visited ++ item :: rest) =
      match test item with
      | .error fault => (visited ++ item :: rest, .error fault)
      | .ok true => spliceLoop test remaining (visited.length + 1) (visited ++ rest)
      | .ok false =>
          spliceLoop test remaining (visited.length + 1) (visited ++ item :: rest) := by
  have hitem : (visited ++ item :: rest)[visited.length]? = some item := by simp
  have herase : (visited ++ item :: rest).eraseIdx visited.length = visited ++ rest := by
    rw [List.eraseIdx_append_of_length_le (Nat.le_refl _), Nat.sub_self]
    rfl
  rw [spliceLoop, hitem]
  simp only [herase]

/-- An item that the loop has passed over belongs to the visited part. -/
theorem spliceLoop_passed {test : Item → Except Fault Bool} {visited rest left : List Item}
    {item : Item} {remaining : Nat} {result : Except Fault Unit}
    (h : spliceLoop test remaining (visited ++ [item]).length (visited ++ [item] ++ rest) =
      (visited ++ [item] ++ left, result)) :
    spliceLoop test remaining (visited.length + 1) (visited ++ item :: rest) =
      (visited ++ item :: left, result) := by
  rwa [List.length_append, List.length_singleton, List.append_assoc, List.append_assoc,
    List.singleton_append, List.singleton_append] at h

/-- With the first part already visited, the loop removes from the rest. -/
theorem spliceLoop_eq_removeSkipping (test : Item → Except Fault Bool)
    (visited rest : List Item) (remaining : Nat) (hremaining : rest.length ≤ remaining) :
    spliceLoop test remaining visited.length (visited ++ rest) =
      (visited ++ (removeSkipping test rest).1, (removeSkipping test rest).2) := by
  induction rest using removeSkipping.induct test generalizing visited remaining with
  | case1 =>
      rw [spliceLoop_past_end _ _ _ _ (by simp)]
      rfl
  | case2 item fault htest =>
      obtain ⟨remaining, rfl⟩ := Nat.exists_eq_add_of_le' hremaining
      simp [spliceLoop_visit, removeSkipping, htest]
  | case3 item htest =>
      obtain ⟨remaining, rfl⟩ := Nat.exists_eq_add_of_le' hremaining
      simp only [List.length_singleton, spliceLoop_visit, removeSkipping, htest, List.append_nil]
      exact spliceLoop_past_end _ _ _ _ (by omega)
  | case4 item htest =>
      obtain ⟨remaining, rfl⟩ := Nat.exists_eq_add_of_le' hremaining
      simp only [List.length_singleton, spliceLoop_visit, removeSkipping, htest]
      exact spliceLoop_past_end _ _ _ _ (by simp)
  | case5 item next rest fault htest =>
      obtain ⟨remaining, rfl⟩ := Nat.exists_eq_add_of_le' hremaining
      simp only [List.length_cons, ← Nat.add_assoc, spliceLoop_visit, removeSkipping, htest]
  | case6 item next rest htest ih =>
      obtain ⟨remaining, rfl⟩ := Nat.exists_eq_add_of_le' hremaining
      -- the successor moves into the visited index and is passed over
      have htail := spliceLoop_passed
        (ih (visited ++ [next]) (remaining + (rest.length + 1)) (by omega))
      simp only [List.length_cons, ← Nat.add_assoc, spliceLoop_visit, removeSkipping, htest]
      rw [Nat.add_assoc, htail]
  | case7 item next rest htest ih =>
      obtain ⟨remaining, rfl⟩ := Nat.exists_eq_add_of_le' hremaining
      have htail := spliceLoop_passed (ih (visited ++ [item]) (remaining + (rest.length + 1))
        (by simp only [List.length_cons]; omega))
      simp only [List.length_cons, ← Nat.add_assoc, spliceLoop_visit, removeSkipping, htest]
      rw [Nat.add_assoc, htail]

/-- The loop only removes. -/
theorem removeSkipping_sublist (test : Item → Except Fault Bool) (list : List Item) :
    (removeSkipping test list).1.Sublist list := by
  induction list using removeSkipping.induct test with
  | case1 => exact List.Sublist.refl _
  | case2 item fault htest => simp [removeSkipping, htest]
  | case3 item htest => simp [removeSkipping, htest]
  | case4 item htest => simp [removeSkipping, htest]
  | case5 item next rest fault htest => simp [removeSkipping, htest]
  | case6 item next rest htest ih =>
      simp only [removeSkipping, htest]
      exact (ih.cons_cons next).cons item
  | case7 item next rest htest ih =>
      simp only [removeSkipping, htest]
      exact ih.cons_cons item

/-- The loop runs to its end if no test throws. -/
theorem removeSkipping_ok (test : Item → Except Fault Bool) (list : List Item)
    (htest : ∀ item ∈ list, ∃ result, test item = .ok result) :
    (removeSkipping test list).2 = .ok () := by
  induction list using removeSkipping.induct test with
  | case1 => rfl
  | case2 item fault hfault => simp [hfault] at htest
  | case3 item hitem => simp [removeSkipping, hitem]
  | case4 item hitem => simp [removeSkipping, hitem]
  | case5 item next rest fault hfault => simp [hfault] at htest
  | case6 item next rest hitem ih =>
      simp only [removeSkipping, hitem]
      exact ih fun other hother =>
        htest other (List.mem_cons_of_mem _ (List.mem_cons_of_mem _ hother))
  | case7 item next rest hitem ih =>
      simp only [removeSkipping, hitem]
      exact ih fun other hother => htest other (List.mem_cons_of_mem _ hother)

/-! ## Tests that cannot fail -/

/-- The loop for a test that does not throw. -/
def eraseSkipping (matches_ : Item → Bool) : List Item → List Item
  | [] => []
  | [item] => if matches_ item then [] else [item]
  | item :: next :: rest =>
      if matches_ item then next :: eraseSkipping matches_ rest
      else item :: eraseSkipping matches_ (next :: rest)

theorem removeSkipping_eq_eraseSkipping (test : Item → Except Fault Bool)
    (matches_ : Item → Bool) (list : List Item)
    (htest : ∀ item ∈ list, test item = .ok (matches_ item)) :
    removeSkipping test list = (eraseSkipping matches_ list, .ok ()) := by
  induction list using eraseSkipping.induct matches_ with
  | case1 => rfl
  | case2 item hitem => simp [removeSkipping, eraseSkipping, htest item (by simp), hitem]
  | case3 item hitem => simp [removeSkipping, eraseSkipping, htest item (by simp), hitem]
  | case4 item next rest hitem ih =>
      have hrest := ih fun other hother =>
        htest other (List.mem_cons_of_mem _ (List.mem_cons_of_mem _ hother))
      simp [removeSkipping, eraseSkipping, htest item List.mem_cons_self, hitem, hrest]
  | case5 item next rest hitem ih =>
      have hrest := ih fun other hother => htest other (List.mem_cons_of_mem _ hother)
      simp [removeSkipping, eraseSkipping, htest item List.mem_cons_self, hitem, hrest]

theorem eraseSkipping_map {Other : Type} (make : Other → Item) (matches_ : Item → Bool)
    (list : List Other) :
    eraseSkipping matches_ (list.map make) =
      (eraseSkipping (fun item => matches_ (make item)) list).map make := by
  induction list using eraseSkipping.induct (fun item => matches_ (make item)) with
  | case1 => rfl
  | case2 item hitem => simp [eraseSkipping, hitem]
  | case3 item hitem => simp [eraseSkipping, hitem]
  | case4 item next rest hitem ih => simp [eraseSkipping, hitem, ih]
  | case5 item next rest hitem ih =>
      rw [List.map_cons] at ih
      simp [eraseSkipping, hitem, ih]

theorem eraseSkipping_sublist (matches_ : Item → Bool) (list : List Item) :
    (eraseSkipping matches_ list).Sublist list := by
  have hsublist := removeSkipping_sublist
    (fun item => (.ok (matches_ item) : Except Unit Bool)) list
  rwa [removeSkipping_eq_eraseSkipping _ matches_ list fun _ _ => rfl] at hsublist

/-- Only matches are removed. -/
theorem filter_eraseSkipping (matches_ : Item → Bool) (list : List Item) :
    (eraseSkipping matches_ list).filter (fun item => !matches_ item) =
      list.filter fun item => !matches_ item := by
  induction list using eraseSkipping.induct matches_ with
  | case1 => rfl
  | case2 item hitem => simp [eraseSkipping, hitem]
  | case3 item hitem => simp [eraseSkipping, hitem]
  | case4 item next rest hitem ih =>
      simp only [eraseSkipping, hitem, if_true, List.filter_cons, ih]
      simp
  | case5 item next rest hitem ih =>
      simp only [List.filter_cons] at ih
      simp [eraseSkipping, hitem, List.filter_cons, ih]

theorem mem_eraseSkipping_of_not_match {matches_ : Item → Bool} {list : List Item} {item : Item}
    (hmem : item ∈ list) (hitem : matches_ item = false) : item ∈ eraseSkipping matches_ list := by
  have hfilter : item ∈ list.filter fun item => !matches_ item :=
    List.mem_filter.mpr ⟨hmem, by simp [hitem]⟩
  rw [← filter_eraseSkipping] at hfilter
  exact List.mem_of_mem_filter hfilter

/-- Of two neighbours that both match, one is left: the second, or the first if it was
skipped itself. -/
theorem exists_match_of_neighbours {matches_ : Item → Bool} {before after : List Item}
    {left right : Item} (hleft : matches_ left = true) (hright : matches_ right = true) :
    ∃ item ∈ eraseSkipping matches_ (before ++ left :: right :: after),
      matches_ item = true := by
  induction before using eraseSkipping.induct matches_ with
  | case1 => exact ⟨right, by simp [eraseSkipping, hleft], hright⟩
  | case2 item hitem => exact ⟨left, by simp [eraseSkipping, hitem], hleft⟩
  | case3 item hitem => exact ⟨right, by simp [eraseSkipping, hitem, hleft], hright⟩
  | case4 item next rest hitem ih =>
      obtain ⟨kept, hkept, hmatch⟩ := ih
      exact ⟨kept, by simp [eraseSkipping, hitem, hkept], hmatch⟩
  | case5 item next rest hitem ih =>
      obtain ⟨kept, hkept, hmatch⟩ := ih
      rw [List.cons_append] at hkept
      exact ⟨kept, by simp [eraseSkipping, hitem, hkept], hmatch⟩

/-- The loop removes every match exactly if no two neighbours match. -/
theorem eraseSkipping_eq_filter_iff (matches_ : Item → Bool) (list : List Item) :
    eraseSkipping matches_ list = list.filter (fun item => !matches_ item) ↔
      list.IsChain fun left right => ¬(matches_ left = true ∧ matches_ right = true) := by
  induction list using eraseSkipping.induct matches_ with
  | case1 => simp [eraseSkipping]
  | case2 item hitem => simp [eraseSkipping, hitem]
  | case3 item hitem => simp [eraseSkipping, hitem]
  | case4 item next rest hitem ih =>
      rw [List.isChain_cons_cons]
      cases hnext : matches_ next with
      | true =>
          -- the second match stays, and the filter has none
          refine iff_of_false ?_ (fun hchain => hchain.1 ⟨hitem, rfl⟩)
          intro heq
          have hmem : next ∈ (item :: next :: rest).filter fun item => !matches_ item := by
            rw [← heq]
            simp [eraseSkipping, hitem]
          simp [hnext] at hmem
      | false =>
          have hchain : (next :: rest).IsChain
              (fun left right => ¬(matches_ left = true ∧ matches_ right = true)) ↔
              rest.IsChain fun left right => ¬(matches_ left = true ∧ matches_ right = true) := by
            refine ⟨fun h => h.tail, fun h => ?_⟩
            cases rest with
            | nil => exact List.isChain_singleton _
            | cons other tail => exact List.isChain_cons_cons.mpr ⟨by simp [hnext], h⟩
          rw [hchain, ← ih]
          simp [eraseSkipping, hitem, hnext]
  | case5 item next rest hitem ih =>
      have hfalse : matches_ item = false := by simpa using hitem
      rw [List.isChain_cons_cons, ← ih, eraseSkipping, if_neg hitem,
        List.filter_cons_of_pos (by simp [hfalse]), List.cons_inj_right]
      simp [hfalse]

/-- When no two neighbours are both removed, nothing is skipped by mistake. -/
theorem removeSkipping_eq_filter (test : Item → Except Fault Bool) (matches_ : Item → Bool)
    (list : List Item) (htest : ∀ item ∈ list, test item = .ok (matches_ item))
    (hchain : list.IsChain fun left right => ¬(matches_ left = true ∧ matches_ right = true)) :
    removeSkipping test list = (list.filter fun item => !matches_ item, .ok ()) := by
  rw [removeSkipping_eq_eraseSkipping test matches_ list htest,
    (eraseSkipping_eq_filter_iff matches_ list).mpr hchain]

/-- The only match is the last item. -/
theorem removeSkipping_concat (test : Item → Except Fault Bool) {list : List Item} {last : Item}
    (hlist : ∀ item ∈ list, test item = .ok false) (hlast : test last = .ok true) :
    removeSkipping test (list ++ [last]) = (list, .ok ()) := by
  have htest : ∀ item ∈ list ++ [last],
      test item = .ok (match test item with | .ok result => result | .error _ => false) := by
    intro item hitem
    rcases List.mem_append.mp hitem with hmem | hmem
    · rw [hlist item hmem]
    · rw [List.mem_singleton.mp hmem, hlast]
  have hfalse : ∀ item ∈ list,
      (match test item with | .ok result => result | .error _ => false) = false := by
    intro item hitem
    rw [hlist item hitem]
  rw [removeSkipping_eq_filter test _ _ htest]
  · rw [List.filter_append, List.filter_eq_self.mpr fun item hitem => by simp [hfalse item hitem]]
    simp [hlast]
  · refine List.Pairwise.isChain (List.pairwise_append.mpr ⟨?_, List.pairwise_singleton _ _, ?_⟩)
    · refine List.Pairwise.imp_of_mem ?_ (List.pairwise_of_forall fun _ _ => trivial)
      intro left right hleft _ _ hboth
      rw [hfalse left hleft] at hboth
      cases hboth.1
    · intro left hleft right _ hboth
      rw [hfalse left hleft] at hboth
      cases hboth.1

end Foundation
