/-!
# Stable order

What it means that a list is another one put in order without changing the
order of equals, and that sorting by merging does this
(`stablyOrdered_mergeSort`). As it can be done in one way only
(`StablyOrdered.unique`), it does not matter whether members are left out before
or after sorting (`filter_mergeSort`).
-/

namespace TestLint

variable {α : Type} {le : α → α → Bool} {xs ordered : List α}

/-- `ordered` has the members of `xs` in the order of `le`, and those that are
equal in this order as `xs` has them. -/
structure StablyOrdered (le : α → α → Bool) (xs ordered : List α) : Prop where
  perm : ordered.Perm xs
  sorted : ordered.Pairwise fun a b => le a b = true
  stable : ∀ a, ordered.filter (fun b => le a b && le b a) =
    xs.filter fun b => le a b && le b a

/-- Sorting by merging keeps the order of equals. -/
theorem stablyOrdered_mergeSort
    (trans : ∀ a b c, le a b = true → le b c = true → le a c = true)
    (total : ∀ a b, (le a b || le b a) = true) (xs : List α) :
    StablyOrdered le xs (xs.mergeSort le) := by
  refine ⟨List.mergeSort_perm xs le, List.pairwise_mergeSort trans total xs, ?_⟩
  intro a
  let equal (b : α) : Bool := le a b && le b a
  -- the equals are in order among themselves, so sorting keeps their sublist
  have hsorted : (xs.filter equal).Pairwise fun b c => le b c = true := by
    rw [List.pairwise_filter]
    refine List.pairwise_of_forall fun b c hb hc => ?_
    rw [Bool.and_eq_true] at hb hc
    exact trans b a c hb.2 hc.1
  have hsub : (xs.filter equal).Sublist (xs.mergeSort le) :=
    List.sublist_mergeSort trans total hsorted List.filter_sublist
  have hfilter := hsub.filter equal
  rw [List.filter_filter] at hfilter
  simp only [Bool.and_self] at hfilter
  exact (hfilter.eq_of_length ((List.mergeSort_perm xs le).filter equal).length_eq.symm).symm

/-- An ordered list falls into what is no greater than a given member and what is. -/
theorem exists_le_append_lt (trans : ∀ a b c, le a b = true → le b c = true → le a c = true)
    (hsorted : xs.Pairwise fun a b => le a b = true) (a : α) :
    ∃ before after, xs = before ++ after ∧ (∀ b ∈ before, le b a = true) ∧
      ∀ b ∈ after, le b a = false := by
  induction xs with
  | nil => exact ⟨[], [], rfl, by simp, by simp⟩
  | cons b xs ih =>
    obtain ⟨hfirst, hsorted⟩ := List.pairwise_cons.1 hsorted
    cases hba : le b a with
    | true =>
      obtain ⟨before, after, rfl, hbefore, hafter⟩ := ih hsorted
      exact ⟨b :: before, after, rfl, List.forall_mem_cons.2 ⟨hba, hbefore⟩, hafter⟩
    | false =>
      refine ⟨[], b :: xs, rfl, by simp, List.forall_mem_cons.2 ⟨hba, fun c hc => ?_⟩⟩
      cases hca : le c a with
      | false => rfl
      | true => rw [← hba, trans b c a (hfirst c hc) hca]

/-- Read backwards, a list in descending order is in ascending order. -/
theorem StablyOrdered.reverse (h : StablyOrdered (fun a b => le b a) xs ordered) :
    StablyOrdered le xs.reverse ordered.reverse := by
  refine ⟨?_, List.pairwise_reverse.2 h.sorted, ?_⟩
  · exact (List.reverse_perm _).trans (h.perm.trans (List.reverse_perm _).symm)
  · intro a
    have hstable := h.stable a
    simp only [Bool.and_comm] at hstable
    rw [List.filter_reverse, List.filter_reverse, hstable]

theorem StablyOrdered.filter (h : StablyOrdered le xs ordered) (p : α → Bool) :
    StablyOrdered le (xs.filter p) (ordered.filter p) := by
  refine ⟨h.perm.filter p, h.sorted.filter p, fun a => ?_⟩
  have hswap (as : List α) : (as.filter p).filter (fun b => le a b && le b a) =
      (as.filter fun b => le a b && le b a).filter p := by
    rw [List.filter_filter, List.filter_filter]
    exact List.filter_congr fun b _ => Bool.and_comm _ _
  rw [hswap, hswap, h.stable]

/-- There is one way only to put a list in order and keep the order of equals. -/
theorem StablyOrdered.unique (total : ∀ a b, (le a b || le b a) = true)
    {ordered' : List α} (h : StablyOrdered le xs ordered) (h' : StablyOrdered le xs ordered') :
    ordered = ordered' := by
  have hperm := h.perm.trans h'.perm.symm
  have hstable (a : α) := (h.stable a).trans (h'.stable a).symm
  have hsorted := h.sorted
  have hsorted' := h'.sorted
  clear h h'
  induction ordered generalizing ordered' with
  | nil => exact hperm.nil_eq
  | cons a as ih =>
    cases ordered' with
    | nil => exact absurd hperm.eq_nil (List.cons_ne_nil a as)
    | cons b bs =>
      have hself (c : α) : le c c = true := by simpa using total c c
      rw [List.pairwise_cons] at hsorted hsorted'
      have hab : le a b = true := by
        rcases List.mem_cons.1 (hperm.mem_iff.2 List.mem_cons_self) with rfl | hb
        · exact hself b
        · exact hsorted.1 b hb
      have hba : le b a = true := by
        rcases List.mem_cons.1 (hperm.mem_iff.1 List.mem_cons_self) with rfl | ha
        · exact hself a
        · exact hsorted'.1 a ha
      -- both heads are the first of the equals of the least
      have hheads := hstable a
      rw [List.filter_cons_of_pos (by simp [hself]), List.filter_cons_of_pos (by simp [hab, hba]),
        List.cons.injEq] at hheads
      obtain rfl := hheads.1
      refine congrArg (a :: ·) (ih hperm.cons_inv (fun c => ?_) hsorted.2 hsorted'.2)
      have hc := hstable c
      rw [List.filter_cons, List.filter_cons] at hc
      by_cases hequal : (le c a && le a c) = true
      · rw [if_pos hequal, if_pos hequal] at hc
        exact List.tail_eq_of_cons_eq hc
      · rwa [if_neg hequal, if_neg hequal] at hc

/-- A member that is put at the end of a list comes, in the order, after all that are no greater
and before all that are. -/
theorem StablyOrdered.exists_append
    (trans : ∀ a b c, le a b = true → le b c = true → le a c = true)
    (total : ∀ a b, (le a b || le b a) = true) (h : StablyOrdered le xs ordered) (a : α) :
    ∃ before after, ordered = before ++ after ∧ (∀ b ∈ before, le b a = true) ∧
      (∀ b ∈ after, le b a = false) ∧ StablyOrdered le (xs ++ [a]) (before ++ a :: after) := by
  obtain ⟨before, after, rfl, hbefore, hafter⟩ := exists_le_append_lt trans h.sorted a
  refine ⟨before, after, rfl, hbefore, hafter, ?_, ?_, ?_⟩
  · exact List.perm_middle.trans
      ((h.perm.cons a).trans (List.perm_append_singleton a xs).symm)
  · obtain ⟨hsorted, hsorted', hle⟩ := List.pairwise_append.1 h.sorted
    have hgreater : ∀ b ∈ after, le a b = true := by
      intro b hb
      simpa [hafter b hb] using total a b
    refine List.pairwise_append.2 ⟨hsorted, List.pairwise_cons.2 ⟨hgreater, hsorted'⟩, ?_⟩
    intro b hb c hc
    rcases List.mem_cons.1 hc with rfl | hc
    · exact hbefore b hb
    · exact hle b hb c hc
  · intro c
    rw [List.filter_append xs, ← h.stable c, List.filter_append, List.filter_append,
      List.append_assoc, List.append_cancel_left_eq]
    by_cases hequal : (le c a && le a c) = true
    · -- none of the greater ones is equal to what `a` is equal to
      have hnone : after.filter (fun b => le c b && le b c) = [] := by
        refine List.filter_eq_nil_iff.2 fun b hb hbc => ?_
        rw [Bool.and_eq_true] at hequal hbc
        exact Bool.eq_false_iff.1 (hafter b hb) (trans b c a hbc.2 hequal.1)
      rw [List.filter_cons, if_pos hequal, hnone, List.nil_append, List.filter_cons, if_pos hequal,
        List.filter_nil]
    · rw [List.filter_cons, if_neg hequal, List.filter_cons, if_neg hequal, List.filter_nil,
        List.append_nil]

theorem mergeSort_pair_of_not_le {a b : α} (h : le a b = false) : [a, b].mergeSort le = [b, a] := by
  rw [List.mergeSort]
  simp [List.MergeSort.Internal.splitInTwo, h]

/-- Sorting by merging and leaving members out can be done in either order. -/
theorem filter_mergeSort (trans : ∀ a b c, le a b = true → le b c = true → le a c = true)
    (total : ∀ a b, (le a b || le b a) = true) (p : α → Bool) (xs : List α) :
    (xs.mergeSort le).filter p = (xs.filter p).mergeSort le :=
  ((stablyOrdered_mergeSort trans total xs).filter p).unique total
    (stablyOrdered_mergeSort trans total (xs.filter p))

/-- Members with a result come in their order, each as often as before. -/
theorem map_filterMap_sublist {β : Type} {f : α → Option β} {g : β → α}
    (h : ∀ a b, f a = some b → g b = a) (xs : List α) : ((xs.filterMap f).map g).Sublist xs := by
  induction xs with
  | nil => exact .slnil
  | cons a xs ih =>
    cases hf : f a with
    | none =>
      rw [List.filterMap_cons_none hf]
      exact ih.cons a
    | some b =>
      rw [List.filterMap_cons_some hf, List.map_cons, h a b hf]
      exact ih.cons_cons a

end TestLint
