import TestLint.Proofs.Duplicate.Similarity
import TestLint.Proofs.Text.Utf16

/-!
# Distance and similarity of texts

The edit distance is a metric (`distance_metric`).  Every script can be taken back edit by
edit (`Script.exists_inverse`) and followed by another one (`Script.trans`), and since the
distance is the least cost of a script, symmetry and the triangle inequality carry over to
it.  A script changes the length by one at most with each edit, and elements can always be
replaced one by one, so that the distance lies between the difference of the lengths and
the larger one; the similarity is therefore a share.
-/

namespace TestLint.Duplicate

variable {α : Type}

/-! ## Scripts -/

namespace Script

variable {xs ys zs : List α}

/-- The edits of the one script, and then those of the other. -/
def trans {xs ys zs : List α} : Script xs ys → Script ys zs → Script xs zs
  | done _, next => next
  | insert before after y rest, next => insert before after y (rest.trans next)
  | delete before after x rest, next => delete before after x (rest.trans next)
  | substitute before after x y rest, next => substitute before after x y (rest.trans next)

@[simp]
theorem cost_trans (s : Script xs ys) (next : Script ys zs) :
    (s.trans next).cost = s.cost + next.cost := by
  induction s with
  | done xs => rw [trans, cost, Nat.zero_add]
  | insert before after y rest ih | delete before after x rest ih
  | substitute before after x y rest ih =>
    rw [trans, cost, cost, ih]
    omega

/-- The edits of a script can be taken back, the last one first. -/
theorem exists_inverse (s : Script xs ys) : ∃ r : Script ys xs, r.cost = s.cost := by
  induction s with
  | done xs => exact ⟨done xs, rfl⟩
  | insert before after y rest ih =>
    obtain ⟨back, hback⟩ := ih
    exact ⟨back.trans (delete before after y (done _)), by rw [cost_trans, hback]; rfl⟩
  | delete before after x rest ih =>
    obtain ⟨back, hback⟩ := ih
    exact ⟨back.trans (insert before after x (done _)), by rw [cost_trans, hback]; rfl⟩
  | substitute before after x y rest ih =>
    obtain ⟨back, hback⟩ := ih
    exact ⟨back.trans (substitute before after y x (done _)), by rw [cost_trans, hback]; rfl⟩

theorem eq_of_cost_eq_zero (s : Script xs ys) (h : s.cost = 0) : xs = ys := by
  cases s with
  | done => rfl
  | insert | delete | substitute => cases h

theorem length_le (s : Script xs ys) : xs.length ≤ ys.length + s.cost := by
  induction s with
  | done xs => exact Nat.le_add_right _ _
  | insert before after y rest ih | delete before after x rest ih
  | substitute before after x y rest ih =>
    simp only [cost, List.length_append, List.length_cons] at ih ⊢
    omega

end Script

/-! ## The least number of edits -/

variable [DecidableEq α]

theorem leastEdits_eq_zero_iff {xs ys : List α} : leastEdits xs ys = 0 ↔ xs = ys := by
  constructor
  · intro h
    obtain ⟨s, hs⟩ := exists_script_leastEdits xs ys
    exact s.eq_of_cost_eq_zero (hs.trans h)
  · rintro rfl
    exact leastEdits_self xs

theorem leastEdits_le_swap (xs ys : List α) : leastEdits xs ys ≤ leastEdits ys xs := by
  obtain ⟨s, hs⟩ := exists_script_leastEdits ys xs
  obtain ⟨back, hback⟩ := s.exists_inverse
  rw [← hs, ← hback]
  exact leastEdits_le_cost back

theorem leastEdits_comm (xs ys : List α) : leastEdits xs ys = leastEdits ys xs :=
  Nat.le_antisymm (leastEdits_le_swap xs ys) (leastEdits_le_swap ys xs)

theorem leastEdits_triangle (xs ys zs : List α) :
    leastEdits xs zs ≤ leastEdits xs ys + leastEdits ys zs := by
  obtain ⟨s, hs⟩ := exists_script_leastEdits xs ys
  obtain ⟨next, hnext⟩ := exists_script_leastEdits ys zs
  rw [← hs, ← hnext, ← Script.cost_trans]
  exact leastEdits_le_cost _

theorem length_le_add_leastEdits (xs ys : List α) : xs.length ≤ ys.length + leastEdits xs ys := by
  obtain ⟨s, hs⟩ := exists_script_leastEdits xs ys
  rw [← hs]
  exact s.length_le

theorem leastEdits_le_max (xs ys : List α) : leastEdits xs ys ≤ max xs.length ys.length := by
  induction xs, ys using leastEdits.induct with
  | case1 ys => simp [leastEdits_nil_left]
  | case2 x xs => simp [leastEdits_nil_right]
  | case3 x xs y ys _ _ ihBoth =>
    have hcost : (if x = y then 0 else 1) ≤ 1 := by split <;> omega
    rw [leastEdits_cons_cons, List.length_cons, List.length_cons]
    omega

/-! ## Scores -/

namespace Score

variable {s : Score}

theorem value_nonneg (h : s.distance ≤ s.length) : 0 ≤ s.value := by
  rw [value]
  split
  · exact zero_le_one
  · exact sub_nonneg.2 (div_le_one_of_le₀ (by exact_mod_cast h) (Nat.cast_nonneg _))

theorem value_le_one (s : Score) : s.value ≤ 1 := by
  rw [value]
  split
  · exact le_refl 1
  · exact sub_le_self 1 (by positivity)

theorem value_eq_one_iff (h : s.distance ≤ s.length) : s.value = 1 ↔ s.distance = 0 := by
  rw [value]
  split
  case isTrue hempty =>
    rw [hempty] at h
    exact ⟨fun _ => Nat.le_zero.1 h, fun _ => rfl⟩
  case isFalse hlength =>
    rw [sub_eq_self, div_eq_zero_iff, Nat.cast_eq_zero, Nat.cast_eq_zero]
    exact or_iff_left hlength

theorem distance_le_length_ofTexts (a b : String) :
    (ofTexts a b).distance ≤ (ofTexts a b).length := by
  rw [ofTexts, distance_eq_leastEdits]
  exact leastEdits_le_max _ _

end Score

/-! ## Texts -/

theorem distance_eq_zero_iff {a b : String} :
    distance (Text.units16 a) (Text.units16 b) = 0 ↔ a = b := by
  rw [distance_eq_leastEdits, leastEdits_eq_zero_iff]
  exact ⟨Text.units16_injective, congrArg Text.units16⟩

/-- The distance of texts is a metric, and lies between the difference of their lengths and
the larger length; the similarity is a number from zero to one, and one for equal texts
only, whether texts are empty or not. -/
theorem distance_metric (a b c : String) :
    (distance (Text.units16 a) (Text.units16 b) = 0 ↔ a = b) ∧
    distance (Text.units16 a) (Text.units16 b) = distance (Text.units16 b) (Text.units16 a) ∧
    distance (Text.units16 a) (Text.units16 c) ≤
      distance (Text.units16 a) (Text.units16 b) + distance (Text.units16 b) (Text.units16 c) ∧
    max (Text.units16 a).length (Text.units16 b).length -
        min (Text.units16 a).length (Text.units16 b).length ≤
      distance (Text.units16 a) (Text.units16 b) ∧
    distance (Text.units16 a) (Text.units16 b) ≤
      max (Text.units16 a).length (Text.units16 b).length ∧
    (Score.ofTexts a b).value = similarity a b ∧
    0 ≤ similarity a b ∧ similarity a b ≤ 1 ∧ (similarity a b = 1 ↔ a = b) := by
  have hshare := Score.distance_le_length_ofTexts a b
  refine ⟨distance_eq_zero_iff, ?_, ?_, ?_, hshare, Score.value_ofTexts a b, ?_⟩
  · simp only [distance_eq_leastEdits]
    exact leastEdits_comm _ _
  · simp only [distance_eq_leastEdits]
    exact leastEdits_triangle _ _ _
  · have hab := length_le_add_leastEdits (Text.units16 a) (Text.units16 b)
    have hba := length_le_add_leastEdits (Text.units16 b) (Text.units16 a)
    rw [leastEdits_comm] at hba
    rw [distance_eq_leastEdits]
    omega
  · rw [← Score.value_ofTexts]
    exact ⟨Score.value_nonneg hshare, Score.value_le_one _,
      (Score.value_eq_one_iff hshare).trans distance_eq_zero_iff⟩

end TestLint.Duplicate
