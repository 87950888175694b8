import TestLint.Text.Utf16

/-!
# Texts and their code units

A text is known by its units (`units16_injective`).  A unit shows by its size whether it is
a character of the basic plane or the first half of another one, since no character has a
number between `0xD800` and `0xDFFF`; so the characters can be read off from the front.
-/

namespace TestLint.Text

theorem toNat_bounds (c : Char) : c.toNat < 0xD800 ∨ 0xDFFF < c.toNat ∧ c.toNat < 0x110000 :=
  c.valid

theorem unitsOf_ne_nil (c : Char) : unitsOf c ≠ [] := by
  rw [unitsOf]
  split <;> exact List.cons_ne_nil _ _

/-- The units of a text tell what its first character is and where it ends. -/
theorem unitsOf_append_inj {c c' : Char} {rest rest' : List Nat}
    (h : unitsOf c ++ rest = unitsOf c' ++ rest') : c = c' ∧ rest = rest' := by
  have hc := toNat_bounds c
  have hc' := toNat_bounds c'
  rw [← Char.toNat_inj]
  simp only [unitsOf] at h
  split at h <;> split at h <;> simp only [List.cons_append, List.nil_append, List.cons.injEq] at h
  · exact h
  · -- the first half of a pair is no character of the basic plane
    omega
  · omega
  · exact ⟨by omega, h.2.2⟩

theorem units16_injective {a b : String} (h : units16 a = units16 b) : a = b := by
  rw [← String.toList_inj]
  rw [units16, units16] at h
  generalize a.toList = cs at h
  generalize b.toList = cs' at h
  induction cs generalizing cs' with
  | nil =>
    cases cs' with
    | nil => rfl
    | cons c' cs' => exact absurd (List.append_eq_nil_iff.1 h.symm).1 (unitsOf_ne_nil c')
  | cons c cs ih =>
    cases cs' with
    | nil => exact absurd (List.append_eq_nil_iff.1 h).1 (unitsOf_ne_nil c)
    | cons c' cs' =>
      obtain ⟨rfl, hrest⟩ := unitsOf_append_inj h
      rw [ih cs' hrest]

end TestLint.Text
