import TestLint.Proofs.Duplicate.Table
import Mathlib.Algebra.Order.Field.Rat
import Mathlib.Tactic.Linarith
import Mathlib.Tactic.NormNum
import Mathlib.Tactic.Positivity

/-!
# Similarity as a number

A score holds a distance and a length; the similarity of two texts is the number
that these stand for (`Score.value_ofTexts`), and near duplicates are those of a
similarity above the threshold (`Score.isNear_iff`).
-/

namespace TestLint.Duplicate

/-- The similarity of two texts: one less the share of edits in the longer one.
Two empty texts are equal, and an empty text is like no other. -/
def similarity (a b : String) : ℚ :=
  match (Text.units16 a).length, (Text.units16 b).length with
  | 0, 0 => 1
  | 0, _ => 0
  | _, 0 => 0
  | n, m => 1 - distance (Text.units16 a) (Text.units16 b) / max n m

/-- What the similarity of near duplicates lies above. -/
def threshold : ℚ :=
  995 / 1000

/-- The similarity that a score stands for. -/
def Score.value (s : Score) : ℚ :=
  if s.length = 0 then 1 else 1 - s.distance / s.length

theorem Score.isNear_iff (s : Score) : s.isNear = true ↔ threshold < s.value := by
  rw [Score.isNear, Score.value, threshold]
  by_cases hempty : s.length = 0
  · norm_num [hempty]
  · have hpos : (0 : ℚ) < s.length := by exact_mod_cast Nat.pos_of_ne_zero hempty
    have hnear : (s.length == 0 || 200 * s.distance < s.length) = true ↔
        (200 * s.distance : ℚ) < s.length := by
      simp only [beq_eq_false_iff_ne.2 hempty, Bool.false_or, decide_eq_true_eq]
      exact_mod_cast Iff.rfl
    rw [hnear, if_neg hempty, lt_sub_comm, div_lt_iff₀ hpos]
    constructor <;> intro h <;> linarith

theorem Score.value_ofTexts (a b : String) : (Score.ofTexts a b).value = similarity a b := by
  rw [similarity, Score.ofTexts, Score.value]
  generalize Text.units16 a = xs
  generalize Text.units16 b = ys
  cases xs with
  | nil =>
    cases ys with
    | nil => rfl
    | cons y ys =>
      have hpos : (ys.length + 1 : ℚ) ≠ 0 := by positivity
      simp [distance_nil_left, hpos]
  | cons x xs =>
    cases ys with
    | nil =>
      have hpos : (xs.length + 1 : ℚ) ≠ 0 := by positivity
      simp [distance_nil_right, hpos]
    | cons y ys => simp

end TestLint.Duplicate
