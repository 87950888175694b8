import TestLint.Path

/-!
# The order of paths

Comparing paths is comparing their components one by one, each by its kind and
then by its name.  So it orders paths totally, and paths that compare as equal
are those with the same components, however they are written.
-/

namespace TestLint.Path

/-- The text of a component; only names have one. -/
def Component.text : Component → String
  | .name text => text
  | _ => ""

theorem Component.compare_eq :
    Component.compare = compareLex (compareOn rank) (compareOn text) := by
  funext a b
  cases a <;> cases b <;> rfl

instance : Std.TransCmp Component.compare :=
  Component.compare_eq ▸ inferInstance

instance : Std.LawfulEqCmp Component.compare where
  eq_of_compare {a b} h := by
    rw [Component.compare_eq, compareLex_eq_eq] at h
    obtain ⟨hrank, htext⟩ := h
    have hrank : a.rank = b.rank := Std.LawfulEqOrd.eq_of_compare hrank
    have htext : a.text = b.text := Std.LawfulEqOrd.eq_of_compare htext
    cases a <;> cases b <;> first | rfl | exact congrArg Component.name htext | cases hrank

theorem compareComponents_eq : compareComponents = List.compareLex Component.compare := by
  funext as bs
  induction as generalizing bs with
  | nil => cases bs <;> rfl
  | cons a as ih =>
    cases bs with
    | nil => rfl
    | cons b bs => rw [compareComponents, ih, List.compareLex_cons_cons]

instance : Std.TransCmp compareComponents :=
  compareComponents_eq ▸ inferInstance

instance : Std.LawfulEqCmp compareComponents :=
  compareComponents_eq ▸ inferInstance

instance : Std.TransCmp Path.compare where
  eq_swap {p q} := @Std.OrientedCmp.eq_swap _ compareComponents _ p.components q.components
  isLE_trans h h' := @Std.TransCmp.isLE_trans _ compareComponents _ _ _ _ h h'

theorem compare_swap (p q : Path) : p.compare q = (q.compare p).swap :=
  Std.OrientedCmp.eq_swap

/-- Paths compare as equal if they are one path. -/
theorem compare_eq_eq_iff {p q : Path} : p.compare q = .eq ↔ p.same q = true := by
  rw [Path.compare, Std.LawfulEqCmp.compare_eq_iff_eq, same, beq_iff_eq]

end TestLint.Path
