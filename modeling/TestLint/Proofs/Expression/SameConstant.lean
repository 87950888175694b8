import TestLint.Proofs.Expression.LiteralValue

/-!
# Equality of constants

Constants are compared with their reals as numbers, the two zeros being one number.  Two of them
are the same if and only if they are equal once both zeros are taken for the positive one
(`Constant.same_iff`), so that to be the same is an equivalence.
-/

namespace TestLint

theorem Literal.sameReal_iff {a b : UInt64} :
    sameReal a b = true ↔ zeroless a = zeroless b := by
  refine ⟨zeroless_eq_of_sameReal, fun h => ?_⟩
  rw [sameReal, Bool.or_eq_true, beq_iff_eq, beq_iff_eq, magnitude_or, UInt64.or_eq_zero_iff]
  rw [zeroless, zeroless] at h
  split at h
  case isTrue ha =>
    split at h
    case isTrue hb => exact .inr ⟨ha, hb⟩
    case isFalse hb =>
      rw [← h] at hb
      exact absurd rfl hb
  case isFalse ha =>
    split at h
    case isTrue hb =>
      rw [h] at ha
      exact absurd rfl ha
    case isFalse hb => exact .inl h

namespace Constant

mutual

/-- The constant with the positive zero for both zeros. -/
def zeroless : Constant → Constant
  | .real bits ending => .real (Literal.zeroless bits) ending
  | .array elementType elements => .array elementType (zerolessAll elements)
  | c => c

def zerolessAll : List Constant → List Constant
  | [] => []
  | c :: rest => zeroless c :: zerolessAll rest

end

mutual

theorem same_iff (a b : Constant) : same a b = true ↔ zeroless a = zeroless b := by
  cases a with
  | real bits ending =>
    cases b with
    | real bits' ending' => simp [same, zeroless, Literal.sameReal_iff]
    | _ => simp [same, zeroless]
  | array elementType elements =>
    cases b with
    | array elementType' elements' =>
      simp [same, zeroless, sameList_iff elements elements']
    | _ => simp [same, zeroless]
  | _ => cases b <;> simp [same, zeroless]

theorem sameList_iff (as bs : List Constant) :
    sameList as bs = true ↔ zerolessAll as = zerolessAll bs := by
  cases as with
  | nil => cases bs <;> simp [sameList, zerolessAll]
  | cons a as =>
    cases bs with
    | nil => simp [sameList, zerolessAll]
    | cons b bs => simp [sameList, zerolessAll, same_iff a b, sameList_iff as bs]

end

end Constant

end TestLint
