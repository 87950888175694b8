import TestLint.Compilation

/-!
# What a name means

A name that is written where `context` is declared means all parts of one type, or
nothing (`Compilation.resolve_eq_nil_or`, `Compilation.Means`).
-/

namespace TestLint.Compilation

variable {c : Compilation} {fullName : String} {t : TypeDeclaration}

theorem mem_typeParts : t ∈ c.typeParts fullName ↔ t ∈ c.types ∧ t.fullName = fullName := by
  rw [typeParts, List.mem_filter, beq_iff_eq]

/-- The full name of the type that a name means where `context` is declared. -/
def meant? (c : Compilation) (written : String) (context : Option TypeDeclaration) :
    Option String :=
  let metadata := metadataForm (plainName written)
  if metadata.toList.contains '.' && !(c.typeParts metadata).isEmpty then
    some metadata
  else
    let last := lastSegment metadata
    choose last context (c.candidates (simpleAndArity last).1 (simpleAndArity last).2)

theorem resolve_eq (written : String) (context : Option TypeDeclaration) :
    c.resolve written context = ((c.meant? written context).map c.typeParts).getD [] := by
  simp only [resolve, meant?]
  cases (metadataForm (plainName written)).toList.contains '.' with
  | true =>
    simp only [if_true, Bool.true_and]
    split
    · rfl
    · cases choose _ context _ <;> rfl
  | false =>
    simp only [Bool.false_eq_true, if_false, Bool.false_and, List.isEmpty_nil, Bool.not_true]
    cases choose _ context _ <;> rfl

/-- A name means all parts of one type, or nothing. -/
theorem resolve_eq_nil_or (written : String) (context : Option TypeDeclaration) :
    c.resolve written context = [] ∨
      ∃ fullName, c.resolve written context = c.typeParts fullName := by
  rw [resolve_eq]
  cases c.meant? written context with
  | none => exact .inl rfl
  | some fullName => exact .inr ⟨fullName, rfl⟩

/-- The parts that a name means are those of the type that the first of them is a part of. -/
theorem resolve_eq_typeParts {written : String} {context : Option TypeDeclaration}
    {first : TypeDeclaration} {others : List TypeDeclaration}
    (h : c.resolve written context = first :: others) :
    first :: others = c.typeParts first.fullName := by
  rcases resolve_eq_nil_or (c := c) written context with hnil | ⟨fullName, hparts⟩
  · rw [h] at hnil
    cases hnil
  · have hfirst : first ∈ c.typeParts fullName := by
      rw [← hparts, h]
      exact List.mem_cons_self
    rw [(mem_typeParts.1 hfirst).2, ← hparts, h]

/-- The name means the type where `context` is declared. -/
def Means (c : Compilation) (context : Option TypeDeclaration) (written fullName : String) : Prop :=
  ∃ part ∈ c.resolve written context, part.fullName = fullName

section

variable {context : Option TypeDeclaration} {written : String}

theorem Means.resolve_eq (h : c.Means context written fullName) :
    c.resolve written context = c.typeParts fullName := by
  obtain ⟨part, hpart, rfl⟩ := h
  cases hparts : c.resolve written context with
  | nil =>
    rw [hparts] at hpart
    cases hpart
  | cons first others =>
    have hfirst := resolve_eq_typeParts hparts
    rw [hparts, hfirst] at hpart
    rw [hfirst, (mem_typeParts.1 hpart).2]

theorem Means.mem_types (h : c.Means context written fullName) :
    fullName ∈ c.types.map (·.fullName) := by
  have heq := h.resolve_eq
  obtain ⟨part, hpart, rfl⟩ := h
  rw [heq] at hpart
  exact List.mem_map_of_mem (mem_typeParts.1 hpart).1

/-- A name means at most one type. -/
theorem Means.unique {other : String} (h : c.Means context written fullName)
    (h' : c.Means context written other) : fullName = other := by
  have heq := h.resolve_eq
  obtain ⟨part, hpart, rfl⟩ := h'
  rw [heq] at hpart
  exact (mem_typeParts.1 hpart).2.symm

end

end TestLint.Compilation
