import TestLint.Check.ParameterType
import TestLint.Proofs.Text.Cutting

/-!
# Parameters of array types

A type that ends in brackets is read as the array of what stands before them
(`ParameterForm.ofText_brackets`), so that arrays are judged element by element
(`ParameterForm.arrayOf_takes_iff`).  The mark of a nullable element is lost on the way: a null
that a parameter of the element's type takes by its mark alone is not taken as an element.
-/

namespace TestLint.Check

namespace ParameterForm

/-! ## How a written type is read -/

theorem exists_of_nullableArgument? {text inner : List Char}
    (h : nullableArgument? text = some inner) :
    ∃ before kept, text = before ++ (kept ++ ['>']) ∧ inner = Text.trim kept := by
  simp only [nullableArgument?, Option.bind_eq_bind, Option.bind_eq_some_iff,
    Option.map_eq_some_iff, Option.orElse_eq_orElse, Option.orElse_eq_or,
    Option.or_eq_some_iff] at h
  obtain ⟨rest, hrest, kept, hkept, rfl⟩ := h
  obtain ⟨before, rfl⟩ : ∃ before, text = before ++ rest := by
    rcases hrest with h | ⟨-, h⟩
    all_goals exact ⟨_, Text.dropStart?_eq_some_iff.1 h⟩
  exact ⟨before, kept, by rw [Text.dropEnd?_eq_some hkept], rfl⟩

theorem length_withoutMark_le (written : List Char) :
    (withoutMark written).1.length ≤ written.length := by
  have htrim := Text.length_trim_le written
  rw [withoutMark]
  split
  case h_1 inner hinner =>
    have hlength := congrArg List.length (Text.dropEnd?_eq_some hinner)
    rw [List.length_append] at hlength
    have hinnerTrim := Text.length_trim_le inner
    change (Text.trim inner).length ≤ written.length
    omega
  case h_2 => exact htrim

theorem length_withoutNullable_le (written : List Char) :
    (withoutNullable written).1.length ≤ written.length := by
  have hmark := length_withoutMark_le written
  rw [withoutNullable]
  dsimp only
  split
  case h_1 inner hinner =>
    obtain ⟨before, kept, htext, rfl⟩ := exists_of_nullableArgument? hinner
    have hlength := congrArg List.length htext
    rw [List.length_append, List.length_append] at hlength
    have hkeptTrim := Text.length_trim_le kept
    change (Text.trim kept).length ≤ written.length
    omega
  case h_2 => exact hmark

/-- The form of the arrays of a type. -/
def arrayOf (f : ParameterForm) : ParameterForm :=
  ⟨.array f.type, true⟩

/-- The type before the brackets that a type ends in. -/
def elementText? (written : String) : Option String :=
  (Text.dropEnd? ['[', ']'] (withoutNullable written.toList).1).map String.ofList

section Reading

variable {ctx : CheckedFile} {typeParameters : List String}

attribute [local simp] readWithin

/-- Each pair of brackets makes the text shorter, so that no more fuel than its length counts. -/
theorem readWithin_eq {fuel fuel' : Nat} {written : List Char} (h : written.length < fuel)
    (h' : written.length < fuel') :
    readWithin ctx typeParameters fuel written = readWithin ctx typeParameters fuel' written := by
  induction fuel generalizing fuel' written with
  | zero => omega
  | succ fuel ih =>
    cases fuel' with
    | zero => omega
    | succ fuel' =>
      have hle := length_withoutNullable_le written
      rw [readWithin, readWithin]
      dsimp only
      cases helement : Text.dropEnd? ['[', ']'] (withoutNullable written).1 with
      | none => rfl
      | some element =>
        have hlength := congrArg List.length (Text.dropEnd?_eq_some helement)
        rw [List.length_append, List.length_cons, List.length_singleton] at hlength
        dsimp only
        have hread := @ih fuel' element (by omega) (by omega)
        rw [hread]

theorem ofText_of_element {written element : String} (h : elementText? written = some element) :
    ofText ctx typeParameters written = (ofText ctx typeParameters element).arrayOf := by
  obtain ⟨inner, hinner, rfl⟩ := Option.map_eq_some_iff.1 h
  have hle := length_withoutNullable_le written.toList
  have hlength := congrArg List.length (Text.dropEnd?_eq_some hinner)
  rw [List.length_append, List.length_cons, List.length_singleton] at hlength
  rw [String.length_toList] at hle
  rw [ofText, readWithin]
  dsimp only
  rw [hinner]
  dsimp only
  have hread := @readWithin_eq ctx typeParameters written.length (inner.length + 1) inner
    (by omega) (by omega)
  rw [hread, arrayOf, ofText, String.toList_ofList, String.length_ofList]

theorem ofText_of_no_element {written : String} (h : elementText? written = none) :
    ofText ctx typeParameters written =
      ⟨ofName ctx typeParameters (String.ofList (withoutNullable written.toList).1),
        (withoutNullable written.toList).2⟩ := by
  simp [ofText, Option.map_eq_none_iff.1 h]

theorem element_eq_self {f : ParameterForm} (h : ∀ element, f.type ≠ .array element) :
    f.element = f := by
  rw [element]
  split
  case h_1 element helement => exact absurd helement (h element)
  case h_2 => rfl

theorem builtIn?_ne_array (name : String) (element : ParameterType) :
    ParameterType.builtIn? name ≠ some (.array element) := by
  have hnone : ∀ entry ∈ ParameterType.builtInTypes,
      (mk entry.2 false).element = ⟨entry.2, false⟩ := by decide +kernel
  intro h
  obtain ⟨before, after, hentries, -⟩ := List.lookup_eq_some_iff.1 h
  have helement := congrArg type (hnone _ (hentries ▸ List.mem_append_right _ List.mem_cons_self))
  have hsize := congrArg sizeOf helement
  simp [ParameterForm.element] at hsize

theorem ofName_ne_array (name : String) (element : ParameterType) :
    ofName ctx typeParameters name ≠ .array element := by
  unfold ofName
  cases htype : ParameterType.builtIn? name with
  | some type =>
    rintro rfl
    exact builtIn?_ne_array name element htype
  | none =>
    dsimp only
    split
    · exact nofun
    · exact nofun

theorem element_of_no_element {written : String} (h : elementText? written = none) :
    (ofText ctx typeParameters written).element = ofText ctx typeParameters written := by
  refine element_eq_self fun element => ?_
  rw [ofText_of_no_element h]
  dsimp only
  exact ofName_ne_array _ element

theorem ofText_congr {written written' : String}
    (h : withoutNullable written.toList = withoutNullable written'.toList) :
    ofText ctx typeParameters written = ofText ctx typeParameters written' := by
  have helement : elementText? written = elementText? written' := by
    rw [elementText?, h, elementText?]
  cases hwritten : elementText? written with
  | none =>
    rw [helement] at hwritten
    rw [ofText_of_no_element hwritten, ofText_of_no_element (helement.trans hwritten), h]
  | some element =>
    rw [helement] at hwritten
    rw [ofText_of_element hwritten, ofText_of_element (helement.trans hwritten)]

end Reading

theorem withoutNullable_brackets (written : List Char) :
    withoutNullable (written ++ ['[', ']']) = (Text.trimStart written ++ ['[', ']'], false) := by
  have hbrackets : Text.Unpadded ['[', ']'] :=
    ⟨List.cons_ne_nil _ _, by simp [Text.NoBlankFirst]; decide, by simp; decide⟩
  have hlast {cs : List Char} {c : Char} (h : cs ++ [c] = Text.trimStart written ++ ['[', ']']) :
      c = ']' := by
    have := congrArg List.getLast? h
    simpa using this
  have hmark : withoutMark (written ++ ['[', ']']) =
      (Text.trimStart written ++ ['[', ']'], false) := by
    rw [withoutMark, hbrackets.trim_append_left]
    split
    case h_1 inner hinner => exact absurd (hlast (Text.dropEnd?_eq_some hinner)) (by decide)
    case h_2 => rfl
  have hargument : nullableArgument? (Text.trimStart written ++ ['[', ']']) = none := by
    rw [Option.eq_none_iff_forall_ne_some]
    intro argument h
    obtain ⟨before, kept, htext, -⟩ := exists_of_nullableArgument? h
    rw [← List.append_assoc] at htext
    exact absurd (hlast htext.symm) (by decide)
  rw [withoutNullable, hmark]
  dsimp only
  rw [hargument]

theorem withoutNullable_trimStart (written : List Char) :
    withoutNullable (Text.trimStart written) = withoutNullable written := by
  rw [withoutNullable, withoutNullable, withoutMark, withoutMark, Text.trim_trimStart]

theorem ofText_brackets (ctx : CheckedFile) (typeParameters : List String) (written : String) :
    ofText ctx typeParameters (written ++ "[]") = (ofText ctx typeParameters written).arrayOf := by
  have helement : elementText? (written ++ "[]") =
      some (String.ofList (Text.trimStart written.toList)) := by
    have htext : (written ++ "[]").toList = written.toList ++ ['[', ']'] := by
      rw [String.toList_append]
      rfl
    rw [elementText?, htext, withoutNullable_brackets, Text.dropEnd?_append, Option.map_some]
  have helementForm : ofText ctx typeParameters (String.ofList (Text.trimStart written.toList)) =
      ofText ctx typeParameters written :=
    ofText_congr (by rw [String.toList_ofList, withoutNullable_trimStart])
  rw [ofText_of_element helement, helementForm]

end ParameterForm

/-! ## Which constants fit -/

theorem allFit_iff {type : ParameterType} {elements : List Constant} :
    allFit type elements = true ↔ ∀ e ∈ elements, fits type false e = true := by
  induction elements with
  | nil => simp [allFit]
  | cons e rest ih => rw [allFit, Bool.and_eq_true, ih, List.forall_mem_cons]

theorem fits_null_iff {type : ParameterType} {nullable : Bool} :
    fits type nullable .null = true ↔ nullable = true ∨ type.isValueType = false := by
  rw [fits]
  cases type <;> simp [ParameterType.isValueType]

namespace ParameterForm

/-- The value is a null that the parameter takes by the mark of its type alone. -/
structure TakesByMark (f : ParameterForm) (value : Constant) : Prop where
  isNull : value = .null
  nullable : f.nullable = true
  isValueType : f.type.isValueType = true

theorem fits_unmarked_iff {f : ParameterForm} {value : Constant} :
    fits f.type false value = true ↔ f.takes value = true ∧ ¬ f.TakesByMark value := by
  rw [takes]
  cases value with
  | null =>
    have hmark : f.TakesByMark .null ↔ f.nullable = true ∧ f.type.isValueType = true :=
      ⟨fun h => ⟨h.nullable, h.isValueType⟩, fun h => ⟨rfl, h.1, h.2⟩⟩
    rw [hmark, fits_null_iff, fits_null_iff]
    cases f.nullable <;> cases f.type.isValueType <;> decide
  | _ =>
    have hmark (v : Constant) (hv : v ≠ .null) : ¬ f.TakesByMark v := fun h => hv h.isNull
    simp [fits, hmark]

/-- An array fits if each element fits the type of the elements, other than as a null that fits it
by its mark alone. -/
theorem arrayOf_takes_iff {f : ParameterForm} {elementType : Option String}
    {elements : List Constant} : f.arrayOf.takes (.array elementType elements) = true ↔
      ∀ e ∈ elements, f.takes e = true ∧ ¬ f.TakesByMark e := by
  rw [takes, arrayOf, fits, allFit_iff]
  simp only [fits_unmarked_iff]

theorem arrayOf_takes_null (f : ParameterForm) : f.arrayOf.takes .null = true :=
  fits_null_iff.2 (.inl rfl)

theorem takes_null_of_element {f : ParameterForm} (h : f.element.takes .null = true) :
    f.takes .null = true := by
  rw [element] at h
  split at h
  case h_1 element helement =>
    rw [takes, fits_null_iff, helement]
    exact .inr rfl
  case h_2 => exact h

theorem arrayOf_element_takes_iff {f : ParameterForm} {value : Constant} :
    f.arrayOf.element.takes value = true ↔ f.takes value = true ∧ ¬ f.TakesByMark value :=
  fits_unmarked_iff (f := f)

end ParameterForm

end TestLint.Check
