import TestLint.Proofs.Compilation.Choosing

/-!
# What a qualifier is worth

A type answers to a dotted name if its full name is the form of the name, or ends in a dot
and the form (`Compilation.Answers`).  Only for a name that is the full name of a declared
type is the qualifier looked at; any other dotted name is resolved as its last segment alone
would be, so that types are found which do not answer to the name
(`Compilation.resolve_dotted`).
-/

namespace TestLint

open Name (Writes)

namespace Compilation

/-- The full name is the form, or ends in a dot and the form. -/
def Answers (form fullName : String) : Prop :=
  fullName = form ∨ ("." ++ form).toList <:+ fullName.toList

instance (form fullName : String) : Decidable (Answers form fullName) :=
  inferInstanceAs (Decidable (_ ∨ _))

variable {c : Compilation} {w : WrittenName} {text short : String}
  {context : Option TypeDeclaration}

theorem resolve_eq_nil_iff :
    c.resolve text context = [] ↔ ∀ fullName, ¬c.Means context text fullName := by
  constructor
  · rintro h fullName ⟨part, hpart, -⟩
    rw [h] at hpart
    cases hpart
  · intro h
    refine List.eq_nil_iff_forall_not_mem.2 fun part hpart => ?_
    exact h part.fullName ⟨part, hpart, rfl⟩

/-- What names mean decides what they are resolved to. -/
theorem resolve_congr (h : ∀ fullName, c.Means context text fullName ↔
    c.Means context short fullName) : c.resolve text context = c.resolve short context := by
  by_cases hnil : c.resolve short context = []
  · rw [hnil, resolve_eq_nil_iff]
    exact fun fullName => mt (h fullName).1 (resolve_eq_nil_iff.1 hnil fullName)
  · obtain ⟨part, hpart⟩ := List.exists_mem_of_ne_nil _ hnil
    have hmeans : c.Means context short part.fullName := ⟨part, hpart, rfl⟩
    rw [hmeans.resolve_eq, ((h _).2 hmeans).resolve_eq]

theorem forall_resolve_iff {P : String → Prop} :
    (∀ t ∈ c.resolve text context, P t.fullName) ↔
      ∀ fullName, c.Means context text fullName → P fullName := by
  constructor
  · rintro h _ ⟨part, hpart, rfl⟩
    exact h part hpart
  · exact fun h t ht => h t.fullName ⟨t, ht, rfl⟩

/-- All types that a dotted name is resolved to answer to it if and only if it is the full
name of a declared type, or the type that is preferred for its last segment answers to it.
If no declared type answers to it, it is resolved to nothing if and only if no type has the
name and the number of type parameters of its last segment.  A dotted name that is no full
name is resolved as its last segment alone. -/
theorem resolve_dotted (c : Compilation) (w : WrittenName) {text : String}
    (hw : Writes text w.chars) (hlength : text.length < 2 ^ 64) (hdotted : w.name.scope ≠ [])
    (context : Option TypeDeclaration) :
    ((∀ t ∈ c.resolve text context, Answers (w.metadata text) t.fullName) ↔
      w.metadata text ∈ c.types.map (·.fullName) ∨
        ∀ fullName, Preferred (c.Fits w.name.last) (tried context w.name.last.form) fullName →
          Answers (w.metadata text) fullName) ∧
    ((∀ t ∈ c.types, ¬Answers (w.metadata text) t.fullName) →
      (c.resolve text context = [] ↔ ∀ fullName, ¬c.Fits w.name.last fullName)) ∧
    (w.metadata text ∉ c.types.map (·.fullName) → ∀ short : String,
      Writes short w.name.last.chars → short.length < 2 ^ 64 →
        c.resolve text context = c.resolve short context) := by
  have hmeans (fullName : String) := means_iff (c := c) hw hlength context fullName
  simp only [WrittenName.lookedFor_eq (WrittenName.leftover_eq_nil text hdotted), ne_eq, hdotted,
    not_false_eq_true, true_and] at hmeans
  refine ⟨?_, fun hnone => ?_, fun hinexact short hshort hlength' => ?_⟩
  · rw [forall_resolve_iff]
    simp only [hmeans]
    by_cases hexact : w.metadata text ∈ c.types.map (·.fullName)
    · simp only [hexact, if_true, true_or, iff_true]
      rintro fullName rfl
      exact .inl rfl
    · simp only [hexact, if_false, false_or]
  · have hinexact : w.metadata text ∉ c.types.map (·.fullName) := by
      intro hmem
      obtain ⟨t, ht, hfull⟩ := List.mem_map.1 hmem
      exact hnone t ht (.inl hfull)
    rw [resolve_eq_nil_iff]
    simp only [hmeans, if_neg hinexact]
    constructor
    · intro h fullName hfits
      obtain ⟨chosen, hchosen⟩ := exists_preferred hfits (tried context w.name.last.form)
      exact h chosen hchosen
    · exact fun h fullName hpreferred => h fullName hpreferred.fits
  · have hwrites : Writes short (WrittenName.chars ⟨none, ⟨[], w.name.last⟩, false⟩) := by
      simpa [WrittenName.chars, WrittenName.labelChars, TypeName.chars, TypeName.segments]
        using hshort
    have hleftover : WrittenName.leftover ⟨none, ⟨[], w.name.last⟩, false⟩ short = [] := by
      simp [WrittenName.leftover, WrittenName.kept, WrittenName.labelChars]
    refine resolve_congr fun fullName => ?_
    rw [hmeans, if_neg hinexact, means_iff hwrites hlength', if_neg (fun h => h.1 rfl),
      WrittenName.lookedFor_eq hleftover]

/-- The class `B.Foo` is found under its full name. -/
theorem resolve_dotted_foo :
    Writes "B . Foo" (WrittenName.chars ⟨none, ⟨[⟨.named "B", .none⟩], segmentFoo⟩, false⟩) ∧
      ∀ t ∈ foos.resolve "B . Foo" none, Answers "B.Foo" t.fullName := by
  have hwrites : Writes "B . Foo"
      (WrittenName.chars ⟨none, ⟨[⟨.named "B", .none⟩], segmentFoo⟩, false⟩) := by
    decide +kernel
  obtain ⟨hanswers, -, -⟩ :=
    resolve_dotted foos _ hwrites (by decide +kernel) (List.cons_ne_nil _ _) none
  have hmetadata : WrittenName.metadata
      ⟨none, ⟨[⟨.named "B", .none⟩], segmentFoo⟩, false⟩ "B . Foo" = "B.Foo" := by
    decide +kernel
  rw [hmetadata] at hanswers
  exact ⟨hwrites, hanswers.2 (.inl (by decide +kernel))⟩

def localSource : String :=
  "namespace Local \x7b class Sources \x7b \x7d \x7d"

def localTree : Tree :=
  .node ⟨"compilation_unit", none, true, false, 0, 37⟩
    [.node ⟨"namespace_declaration", none, true, false, 0, 37⟩
      [.node ⟨"identifier", some "name", true, false, 10, 15⟩ [],
       .node ⟨"declaration_list", some "body", true, false, 16, 37⟩
        [.node ⟨"class_declaration", none, true, false, 18, 35⟩
          [.node ⟨"identifier", some "name", true, false, 24, 31⟩ [],
           .node ⟨"declaration_list", some "body", true, false, 32, 35⟩ []]]]]

/-- One class, in a namespace of its own. -/
def localCompilation : Compilation :=
  .ofSources (fun _ => localTree) [(⟨"Local.cs"⟩, localSource)] .empty

/-- The class is found under a qualifier that is not its own. -/
theorem foreign_qualifier_is_passed_over :
    Writes "Other.Sources"
        (WrittenName.chars ⟨none, ⟨[⟨.named "Other", .none⟩], ⟨.named "Sources", .none⟩⟩, false⟩) ∧
      metadataForm (plainName "Other.Sources") = "Other.Sources" ∧
      (∀ t ∈ localCompilation.types, ¬Answers "Other.Sources" t.fullName) ∧
      (localCompilation.resolve "Other.Sources" none).map (·.fullName) = ["Local.Sources"] := by
  decide +kernel

end Compilation

end TestLint
