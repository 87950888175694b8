import Mathlib.Data.List.Nodup

/-!
# Sorted names

Names in alphabetical order, each once, depend on nothing but which names there are
(`sortedNames_congr`).
-/

namespace TestLint

theorem pairwise_eraseDups {α : Type} [BEq α] [LawfulBEq α] {r : α → α → Prop} {as : List α}
    (h : as.Pairwise r) : as.eraseDups.Pairwise fun a b => r a b ∧ a ≠ b := by
  induction hlength : as.length using Nat.strongRecOn generalizing as with
  | ind n ih =>
    cases as with
    | nil => simp
    | cons a rest =>
      obtain ⟨ha, hrest⟩ := List.pairwise_cons.1 h
      have hshorter : (rest.filter fun b => !b == a).length < n := by
        rw [← hlength, List.length_cons]
        exact Nat.lt_succ_of_le (List.length_filter_le _ rest)
      rw [List.eraseDups_cons, List.pairwise_cons]
      refine ⟨fun b hb => ?_, ih _ hshorter (hrest.filter _) rfl⟩
      rw [List.mem_eraseDups, List.mem_filter] at hb
      refine ⟨ha b hb.1, fun hab => ?_⟩
      rw [hab] at hb
      simp at hb

theorem pairwise_sorted (names : List String) :
    (names.mergeSort fun a b => a ≤ b).Pairwise (· ≤ ·) := by
  have hsorted : (names.mergeSort fun a b => a ≤ b).Pairwise
      fun a b => decide (a ≤ b) = true := by
    refine List.pairwise_mergeSort (fun a b c h h' => ?_) (fun a b => ?_) names
    · rw [decide_eq_true_eq] at h h' ⊢
      exact String.le_trans h h'
    · rw [Bool.or_eq_true, decide_eq_true_eq, decide_eq_true_eq]
      exact String.le_total a b
  exact hsorted.imp of_decide_eq_true

theorem pairwise_sortedNames (names : List String) :
    (names.mergeSort fun a b => a ≤ b).eraseDups.Pairwise (· < ·) :=
  (pairwise_eraseDups (pairwise_sorted names)).imp fun h => Std.lt_of_le_of_ne h.1 h.2

theorem sortedNames_congr {names names' : List String} (h : ∀ name, name ∈ names ↔ name ∈ names') :
    (names.mergeSort fun a b => a ≤ b).eraseDups =
      (names'.mergeSort fun a b => a ≤ b).eraseDups := by
  have hsorted := pairwise_sortedNames names
  have hsorted' := pairwise_sortedNames names'
  have hne : ∀ {a b : String}, a < b → a ≠ b := by
    rintro a _ hlt rfl
    exact String.lt_irrefl a hlt
  refine List.Perm.eq_of_pairwise (fun a b _ _ hab hba => absurd hba (String.lt_asymm hab))
    hsorted hsorted' ?_
  refine (List.perm_ext_iff_of_nodup (hsorted.imp hne) (hsorted'.imp hne)).2 fun name => ?_
  rw [List.mem_eraseDups, List.mem_eraseDups, List.mem_mergeSort, List.mem_mergeSort, h name]

end TestLint
