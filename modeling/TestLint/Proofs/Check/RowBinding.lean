import TestLint.Check.DataRow
import TestLint.Proofs.Check.ParameterForm

/-!
# Which rows of data bind to the parameters of their method

The values of a row bind if they are not too few and not too many, each one before a last `params`
parameter fits its own parameter, and the rest is one whole array or fits the type of the elements
one by one (`Check.Binds`).  Nothing is found in a row if and only if its values bind and no null
fits the type of the elements by its mark alone; of another row the number of its values is
reported, or else the places of those that do not fit (`Check.rowFinding?_spec`).

A lone null before a lone parameter is judged on its own, with the finding of the general way
except for its property (`Check.rowFinding?_loneNull`).
-/

namespace TestLint

namespace Method

/-- The last parameter, if it takes all values that are left. -/
def spread? (m : Method) : Option Parameter :=
  m.parameters.getLast?.filter (·.isParams)

/-- The parameters that take one value each. -/
def fixed (m : Method) : List Parameter :=
  if m.spread?.isSome then m.parameters.dropLast else m.parameters

/-- How many parameters need a value. -/
def required (m : Method) : Nat :=
  m.parameters.countP fun p => !p.hasDefault && !p.isParams

theorem fixed_of_spread {m : Method} {last : Parameter} (h : m.spread? = some last) :
    m.parameters = m.fixed ++ [last] := by
  obtain ⟨hlast, -⟩ := Option.filter_eq_some_iff.1 h
  rw [fixed, h, Option.isSome_some, if_pos rfl]
  exact (List.dropLast_append_getLast? last hlast).symm

theorem fixed_of_no_spread {m : Method} (h : m.spread? = none) : m.fixed = m.parameters := by
  rw [fixed, h, Option.isSome_none, if_neg Bool.false_ne_true]

/-- The form of the type of a parameter. -/
def form (m : Method) (ctx : CheckedFile) (p : Parameter) : Check.ParameterForm :=
  .ofText ctx m.typeParameters p.typeName

/-- The form of the type that a `params` parameter takes one by one, as it is written: the type
before its brackets. -/
def elementForm (m : Method) (ctx : CheckedFile) (p : Parameter) : Check.ParameterForm :=
  .ofText ctx m.typeParameters ((Check.ParameterForm.elementText? p.typeName).getD p.typeName)

end Method

namespace Check

/-! ## What it is to bind -/

variable (ctx : CheckedFile) (m : Method) (values : List Constant)

/-- So many values are neither too few nor too many. -/
structure CountFits (count : Nat) : Prop where
  enough : m.required ≤ count
  notTooMany : m.spread? = none → count ≤ m.parameters.length

/-- The values bind to the parameters. -/
structure Binds : Prop where
  count : CountFits m values.length
  fixed : ∀ (i : Nat) p value, m.fixed[i]? = some p → values[i]? = some value →
    (m.form ctx p).takes value = true
  rest : ∀ p, m.spread? = some p →
    (∃ value, values.drop m.fixed.length = [value] ∧ (m.form ctx p).takes value = true) ∨
      ∀ value ∈ values.drop m.fixed.length, (m.elementForm ctx p).takes value = true

/-- The value at this place fits the parameter that it binds to. -/
structure FitsAt (i : Nat) (value : Constant) : Prop where
  fixed : ∀ p, m.fixed[i]? = some p → (m.form ctx p).takes value = true
  rest : m.fixed.length ≤ i → ∀ p, m.spread? = some p →
    (values.length = m.fixed.length + 1 ∧ (m.form ctx p).takes value = true) ∨
      (m.elementForm ctx p).takes value = true

/-- The value at this place does not fit. -/
def FailsAt (i : Nat) : Prop :=
  ∃ value, values[i]? = some value ∧ ¬ FitsAt ctx m values i value

/-- The value is a null that the elements of this array take by the mark of their type alone. -/
def TakesElementByMark (p : Parameter) (value : Constant) : Prop :=
  ∃ element, ParameterForm.elementText? p.typeName = some element ∧
    (ParameterForm.ofText ctx m.typeParameters element).TakesByMark value

/-- There is a null at this place, one of several values for an array whose elements take it by
the mark of their type alone. -/
structure MarkLostAt (i : Nat) : Prop where
  isNull : values[i]? = some .null
  isElement : ∃ p, m.spread? = some p ∧ TakesElementByMark ctx m p .null
  notFixed : m.fixed.length ≤ i
  notWhole : values.length ≠ m.fixed.length + 1

variable {ctx m values}

theorem mem_drop_iff {n : Nat} {value : Constant} :
    value ∈ values.drop n ↔ ∃ i, n ≤ i ∧ values[i]? = some value := by
  rw [List.mem_iff_getElem?]
  simp only [List.getElem?_drop]
  constructor
  · rintro ⟨i, hi⟩
    exact ⟨n + i, Nat.le_add_right n i, hi⟩
  · rintro ⟨i, hle, hi⟩
    exact ⟨i - n, by rwa [Nat.add_sub_cancel' hle]⟩

theorem drop_eq_singleton_iff {n : Nat} {value : Constant} :
    values.drop n = [value] ↔ values.length = n + 1 ∧ values[n]? = some value := by
  constructor
  · intro h
    have hlength := congrArg List.length h
    rw [List.length_drop, List.length_singleton] at hlength
    have hfirst : (values.drop n)[0]? = some value := by rw [h]; rfl
    rw [List.getElem?_drop, Nat.add_zero] at hfirst
    exact ⟨by omega, hfirst⟩
  · rintro ⟨hlength, hvalue⟩
    obtain ⟨hn, rfl⟩ := List.getElem?_eq_some_iff.1 hvalue
    rw [List.drop_eq_getElem_cons hn, List.drop_eq_nil_of_le (by omega)]

theorem fitsAt_of_fixed {i : Nat} {value : Constant} {only : Parameter}
    (h : m.fixed[i]? = some only) :
    FitsAt ctx m values i value ↔ (m.form ctx only).takes value = true := by
  refine ⟨fun hfits => hfits.fixed only h, fun htakes => ⟨fun p hp => ?_, fun hle => ?_⟩⟩
  · cases h.symm.trans hp
    exact htakes
  · exact absurd (List.getElem?_eq_some_iff.1 h).1 (Nat.not_lt_of_le hle)

theorem fitsAt_of_spread {i : Nat} {value : Constant} {last : Parameter}
    (hle : m.fixed.length ≤ i) (h : m.spread? = some last) : FitsAt ctx m values i value ↔
      (values.length = m.fixed.length + 1 ∧ (m.form ctx last).takes value = true) ∨
        (m.elementForm ctx last).takes value = true := by
  refine ⟨fun hfits => hfits.rest hle last h, fun htakes => ⟨fun p hp => ?_, fun _ p hp => ?_⟩⟩
  · cases (List.getElem?_eq_none_iff.2 hle).symm.trans hp
  · cases h.symm.trans hp
    exact htakes

theorem fitsAt_of_no_parameter {i : Nat} {value : Constant} (hle : m.fixed.length ≤ i)
    (h : m.spread? = none) : FitsAt ctx m values i value := by
  refine ⟨fun p hp => ?_, fun _ p hp => ?_⟩
  · cases (List.getElem?_eq_none_iff.2 hle).symm.trans hp
  · cases h.symm.trans hp

theorem TakesElementByMark.takes_whole {p : Parameter} {value : Constant}
    (h : TakesElementByMark ctx m p value) : (m.form ctx p).takes value = true := by
  obtain ⟨element, helement, hmark⟩ := h
  rw [Method.form, ParameterForm.ofText_of_element helement, hmark.isNull]
  exact ParameterForm.arrayOf_takes_null _

theorem markLostAt_iff {i : Nat} {value : Constant} {last : Parameter}
    (hvalue : values[i]? = some value) (hle : m.fixed.length ≤ i) (h : m.spread? = some last) :
    MarkLostAt ctx m values i ↔
      TakesElementByMark ctx m last value ∧ values.length ≠ m.fixed.length + 1 := by
  constructor
  · rintro ⟨hnull, ⟨p, hp, hmark⟩, -, hlength⟩
    cases hvalue.symm.trans hnull
    cases h.symm.trans hp
    exact ⟨hmark, hlength⟩
  · rintro ⟨hmark, hlength⟩
    obtain rfl : value = .null := hmark.elim fun _ hmark => hmark.2.isNull
    exact ⟨hvalue, ⟨last, h, hmark⟩, hle, hlength⟩

theorem Binds.fitsAt (h : Binds ctx m values) {i : Nat} {value : Constant}
    (hvalue : values[i]? = some value) : FitsAt ctx m values i value where
  fixed p hp := h.fixed i p value hp hvalue
  rest hle p hp := by
    rcases h.rest p hp with ⟨whole, hwhole, htakes⟩ | hall
    · obtain ⟨hlength, hwhole⟩ := drop_eq_singleton_iff.1 hwhole
      obtain rfl : i = m.fixed.length := by
        have := (List.getElem?_eq_some_iff.1 hvalue).1
        omega
      cases hvalue.symm.trans hwhole
      exact .inl ⟨hlength, htakes⟩
    · exact .inr (hall value (mem_drop_iff.2 ⟨i, hle, hvalue⟩))

theorem binds_iff : Binds ctx m values ↔
    CountFits m values.length ∧ ∀ i, ¬ FailsAt ctx m values i := by
  constructor
  · rintro h
    refine ⟨h.count, fun i hfails => ?_⟩
    obtain ⟨value, hvalue, hnot⟩ := hfails
    exact hnot (h.fitsAt hvalue)
  · rintro ⟨hcount, hnone⟩
    have hfits (i : Nat) (value : Constant) (hvalue : values[i]? = some value) :
        FitsAt ctx m values i value := by
      by_contra hnot
      exact hnone i ⟨value, hvalue, hnot⟩
    refine ⟨hcount, fun i p value hp hvalue => (hfits i value hvalue).fixed p hp, fun p hp => ?_⟩
    by_cases hlength : values.length = m.fixed.length + 1
    · -- one value is left: it may be the whole array
      have hn : m.fixed.length < values.length := by omega
      have hvalue := List.getElem?_eq_getElem hn
      have hdrop := drop_eq_singleton_iff.2 ⟨hlength, hvalue⟩
      rcases (hfits _ _ hvalue).rest (Nat.le_refl _) p hp with ⟨-, htakes⟩ | htakes
      · exact .inl ⟨_, hdrop, htakes⟩
      · rw [hdrop]
        refine .inr fun value hmem => ?_
        rwa [List.mem_singleton.1 hmem]
    · refine .inr fun value hmem => ?_
      obtain ⟨i, hle, hvalue⟩ := mem_drop_iff.1 hmem
      rcases (hfits i value hvalue).rest hle p hp with ⟨heq, -⟩ | htakes
      · exact absurd heq hlength
      · exact htakes

/-! ## Parameters as rows bind to them -/

theorem element_takes_iff {p : Parameter} {value : Constant} :
    (m.form ctx p).element.takes value = true ↔
      (m.elementForm ctx p).takes value = true ∧ ¬ TakesElementByMark ctx m p value := by
  rw [Method.form, Method.elementForm, TakesElementByMark]
  cases helement : ParameterForm.elementText? p.typeName with
  | none =>
    rw [ParameterForm.element_of_no_element helement, Option.getD_none]
    simp
  | some element =>
    rw [ParameterForm.ofText_of_element helement, ParameterForm.arrayOf_element_takes_iff,
      Option.getD_some]
    simp

namespace RowParameters

variable {p : RowParameters}

theorem ofMethod_eq : ofMethod ctx m =
    ⟨m.fixed.map (m.form ctx), m.spread?.map (m.form ctx), m.required⟩ := by
  have hform : m.form ctx = fun p => .ofText ctx m.typeParameters p.typeName := rfl
  rw [ofMethod, Method.fixed, Method.spread?, Method.required, hform]
  cases hlast : m.parameters.getLast? with
  | none =>
    rw [List.getLast?_eq_none_iff.1 hlast]
    rfl
  | some last => cases hparams : last.isParams <;> simp [hparams, Option.filter]

theorem takesCount_iff {count : Nat} :
    (ofMethod ctx m).takesCount count = true ↔ CountFits m count := by
  have hiff : CountFits m count ↔
      m.required ≤ count ∧ (m.spread? = none → count ≤ m.parameters.length) :=
    ⟨fun h => ⟨h.enough, h.notTooMany⟩, fun h => ⟨h.1, h.2⟩⟩
  rw [hiff, ofMethod_eq, takesCount]
  cases hspread : m.spread? with
  | none => simp [Method.fixed_of_no_spread hspread]
  | some last => simp

theorem takesAt_of_fixed {count i : Nat} {value : Constant} {only : Parameter}
    (h : m.fixed[i]? = some only) :
    (ofMethod ctx m).takesAt count i value = (m.form ctx only).takes value := by
  rw [ofMethod_eq, takesAt, List.getElem?_map, h, Option.map_some]

theorem takesAt_of_spread {count i : Nat} {value : Constant} {last : Parameter}
    (hle : m.fixed.length ≤ i) (h : m.spread? = some last) :
    (ofMethod ctx m).takesAt count i value = true ↔
      (count = m.fixed.length + 1 ∧ (m.form ctx last).takes value = true) ∨
        (m.form ctx last).element.takes value = true := by
  rw [ofMethod_eq, takesAt, List.getElem?_map, List.getElem?_eq_none_iff.2 hle, h]
  dsimp only [Option.map_none, Option.map_some]
  rw [List.length_map, Bool.or_eq_true, Bool.and_eq_true, beq_iff_eq]

theorem takesAt_of_no_parameter {count i : Nat} {value : Constant} (hle : m.fixed.length ≤ i)
    (h : m.spread? = none) : (ofMethod ctx m).takesAt count i value = true := by
  rw [ofMethod_eq, takesAt, List.getElem?_map, List.getElem?_eq_none_iff.2 hle, h]
  rfl

theorem takesAt_iff {i : Nat} {value : Constant} (hvalue : values[i]? = some value) :
    (ofMethod ctx m).takesAt values.length i value = true ↔
      FitsAt ctx m values i value ∧ ¬ MarkLostAt ctx m values i := by
  rcases Nat.lt_or_ge i m.fixed.length with hlt | hle
  · -- a fixed parameter keeps its mark
    have honly := List.getElem?_eq_getElem hlt
    rw [takesAt_of_fixed honly, fitsAt_of_fixed honly]
    refine (and_iff_left fun hlost => ?_).symm
    exact Nat.not_le_of_lt hlt hlost.notFixed
  · cases hspread : m.spread? with
    | none =>
      have hfits : FitsAt ctx m values i value :=
        fitsAt_of_no_parameter hle hspread
      refine iff_of_true (takesAt_of_no_parameter hle hspread) ⟨hfits, fun hlost => ?_⟩
      obtain ⟨last, hlast, -⟩ := hlost.isElement
      exact Option.some_ne_none last (hlast.symm.trans hspread)
    | some last =>
      rw [takesAt_of_spread hle hspread, fitsAt_of_spread hle hspread, element_takes_iff,
        markLostAt_iff hvalue hle hspread]
      constructor
      · rintro (hwhole | ⟨htakes, hmark⟩)
        · exact ⟨.inl hwhole, fun hlost => hlost.2 hwhole.1⟩
        · exact ⟨.inr htakes, fun hlost => hmark hlost.1⟩
      · rintro ⟨hwhole | htakes, hlost⟩
        · exact .inl hwhole
        · by_cases hmark : TakesElementByMark ctx m last value
          · -- the mark is lost, but a null that is left alone is the whole array
            have hlength : values.length = m.fixed.length + 1 :=
              not_not.1 fun hne => hlost ⟨hmark, hne⟩
            exact .inl ⟨hlength, hmark.takes_whole⟩
          · exact .inr ⟨htakes, hmark⟩

theorem mem_mismatches_iff {i : Nat} : i ∈ p.mismatches values ↔
    ∃ value, values[i]? = some value ∧ ¬ p.takesAt values.length i value = true := by
  rw [mismatches, List.mem_map]
  constructor
  · rintro ⟨⟨value, j⟩, hmem, rfl⟩
    obtain ⟨hmem, hnot⟩ := List.mem_filter.1 hmem
    exact ⟨value, List.mk_mem_zipIdx_iff_getElem?.1 hmem, by simpa using hnot⟩
  · rintro ⟨value, hvalue, hnot⟩
    refine ⟨(value, i), List.mem_filter.2 ⟨List.mk_mem_zipIdx_iff_getElem?.2 hvalue, ?_⟩, rfl⟩
    simpa using hnot

theorem pairwise_mismatches (p : RowParameters) (values : List Constant) :
    (p.mismatches values).Pairwise (· < ·) := by
  have hplaces : values.zipIdx.Pairwise (·.2 < ·.2) := by
    rw [← List.pairwise_map, List.zipIdx_map_snd]
    exact List.pairwise_lt_range'
  rw [mismatches, List.pairwise_map]
  exact hplaces.filter _

theorem mem_mismatches_ofMethod_iff {i : Nat} : i ∈ (ofMethod ctx m).mismatches values ↔
    FailsAt ctx m values i ∨ MarkLostAt ctx m values i := by
  rw [mem_mismatches_iff]
  constructor
  · rintro ⟨value, hvalue, hnot⟩
    rw [takesAt_iff hvalue, not_and_or, not_not] at hnot
    exact hnot.imp (fun h => ⟨value, hvalue, h⟩) id
  · rintro (⟨value, hvalue, hnot⟩ | hlost)
    · exact ⟨value, hvalue, fun h => hnot ((takesAt_iff hvalue).1 h).1⟩
    · exact ⟨.null, hlost.isNull, fun h => ((takesAt_iff hlost.isNull).1 h).2 hlost⟩

end RowParameters

/-- An array fits a parameter of an array type, and a value fits among the elements of a `params`
parameter of that type, if each element or the value fits a parameter of the type before the
brackets, other than as a null that fits it by its mark alone. -/
theorem brackets_takes_iff (ctx : CheckedFile) (written : String) :
    (∀ typeParameters elementType elements,
      (ParameterForm.ofText ctx typeParameters (written ++ "[]")).takes
          (.array elementType elements) = true ↔
        ∀ e ∈ elements, (ParameterForm.ofText ctx typeParameters written).takes e = true ∧
          ¬ (ParameterForm.ofText ctx typeParameters written).TakesByMark e) ∧
    ∀ (m : Method) (last : Parameter), m.spread? = some last → last.typeName = written ++ "[]" →
      ∀ count i value, m.fixed.length ≤ i →
        ¬ (count = m.fixed.length + 1 ∧ (m.form ctx last).takes value = true) →
        ((RowParameters.ofMethod ctx m).takesAt count i value = true ↔
          (ParameterForm.ofText ctx m.typeParameters written).takes value = true ∧
            ¬ (ParameterForm.ofText ctx m.typeParameters written).TakesByMark value) := by
  constructor
  · intro typeParameters elementType elements
    rw [ParameterForm.ofText_brackets, ParameterForm.arrayOf_takes_iff]
  · intro m last hspread htype count i value hle hwhole
    rw [RowParameters.takesAt_of_spread hle hspread, or_iff_right hwhole, Method.form, htype,
      ParameterForm.ofText_brackets, ParameterForm.arrayOf_element_takes_iff]

/-- A method with one parameter. -/
def methodOfOne (typeName : String) (modifiers : List String) : Method :=
  { (default : Method) with
    parameters := [⟨"x", typeName, modifiers, false, ⟨1, 40, some 1, some 50, none⟩⟩] }

/-- Among the elements of `params int?[]` a number fits and a null does not. -/
theorem brackets_takes_iff_params :
    let m := methodOfOne "int?[]" ["params"]
    ∃ last, m.spread? = some last ∧ last.typeName = "int?" ++ "[]" ∧ m.fixed.length ≤ 1 ∧
      (∀ value, ¬ (2 = m.fixed.length + 1 ∧ (m.form default last).takes value = true)) ∧
      (RowParameters.ofMethod default m).takesAt 2 1 (.integer 5) = true ∧
      ¬ (RowParameters.ofMethod default m).takesAt 2 1 .null = true := by
  intro m
  have hfixed : m.fixed.length = 0 := by decide +kernel
  have hle : m.fixed.length ≤ 1 := hfixed.trans_le (Nat.zero_le 1)
  have hwhole (last : Parameter) (value : Constant) :
      ¬ (2 = m.fixed.length + 1 ∧ (m.form default last).takes value = true) := by
    rintro ⟨hcount, -⟩
    omega
  obtain ⟨last, hspread, htype⟩ : ∃ last, m.spread? = some last ∧ last.typeName = "int?" ++ "[]" :=
    ⟨_, rfl, by decide +kernel⟩
  have hiff (value : Constant) := (brackets_takes_iff default "int?").2 m last hspread htype 2 1
    value hle (hwhole last value)
  refine ⟨last, hspread, htype, hle, hwhole last, (hiff _).2 ⟨by decide +kernel, ?_⟩, fun h => ?_⟩
  · exact fun hmark => nomatch hmark.isNull
  · exact ((hiff _).1 h).2 ⟨rfl, by decide +kernel, by decide +kernel⟩

/-- The null of an element that may be null does not fit the array. -/
theorem null_of_marked_element_does_not_fit :
    (ParameterForm.ofText default [] "int?").takes .null = true ∧
      (ParameterForm.ofText default [] "int?[]").takes (.array (some "int?") [.null]) = false := by
  decide +kernel

/-! ## What is found -/

/-- What a finding says of a row: how many values it has, where so many do not fit, else the
places of the values that do not fit, in their order. -/
structure SaysOf (ctx : CheckedFile) (m : Method) (a : Attribute) (finding : Finding) : Prop where
  location : finding.location = a.location
  count : ¬ CountFits m a.expandedValues.length →
    finding.message = countMessage a.expandedValues.length m.parameters.length
  places : CountFits m a.expandedValues.length → ∃ places : List Nat, places ≠ [] ∧
    places.Pairwise (· < ·) ∧ (∀ i, i ∈ places ↔
      FailsAt ctx m a.expandedValues i ∨ MarkLostAt ctx m a.expandedValues i) ∧
    finding.message = mismatchMessage places

section Findings

variable {a : Attribute}

theorem generalFinding?_eq_none_iff : generalFinding? ctx m a = none ↔
    CountFits m a.expandedValues.length ∧
      (RowParameters.ofMethod ctx m).mismatches a.expandedValues = [] := by
  rw [← @RowParameters.takesCount_iff ctx]
  unfold generalFinding?
  dsimp only
  split
  case isTrue hcount =>
    rw [Bool.not_eq_true'] at hcount
    simp [hcount]
  case isFalse hcount =>
    rw [Bool.not_eq_true', Bool.not_eq_false] at hcount
    rw [hcount]
    cases (RowParameters.ofMethod ctx m).mismatches a.expandedValues <;> simp

theorem generalFinding?_says {finding : Finding} (h : generalFinding? ctx m a = some finding) :
    SaysOf ctx m a finding := by
  unfold generalFinding? at h
  dsimp only at h
  split at h
  case isTrue hcount =>
    rw [Bool.not_eq_true', Bool.eq_false_iff, Ne, RowParameters.takesCount_iff] at hcount
    cases h
    exact ⟨rfl, fun _ => rfl, fun hfits => absurd hfits hcount⟩
  case isFalse hcount =>
    rw [Bool.not_eq_true', Bool.not_eq_false, RowParameters.takesCount_iff] at hcount
    split at h
    case h_1 => cases h
    case h_2 places hplaces =>
      cases h
      exact ⟨rfl, fun hnot => absurd hcount hnot, fun _ => ⟨_, hplaces,
        RowParameters.pairwise_mismatches _ _, fun _ => RowParameters.mem_mismatches_ofMethod_iff,
        rfl⟩⟩

/-! ### A lone null -/

variable {only : Parameter}

theorem takesAt_loneNull (hparameters : m.parameters = [only]) :
    (RowParameters.ofMethod ctx m).takesAt 1 0 .null = (m.form ctx only).takes .null := by
  cases hspread : m.spread? with
  | none =>
    refine RowParameters.takesAt_of_fixed ?_
    rw [Method.fixed_of_no_spread hspread, hparameters]
    rfl
  | some last =>
    have hlast : [] ++ [only] = m.fixed ++ [last] :=
      hparameters.symm.trans (Method.fixed_of_spread hspread)
    obtain ⟨hfixed, hlast⟩ := List.append_inj' hlast rfl
    cases hlast
    rw [Bool.eq_iff_iff, RowParameters.takesAt_of_spread (hfixed ▸ Nat.le_refl 0) hspread, ← hfixed]
    constructor
    · rintro (⟨-, htakes⟩ | helement)
      · exact htakes
      · exact ParameterForm.takes_null_of_element helement
    · exact fun htakes => .inl ⟨rfl, htakes⟩

theorem generalFinding?_loneNull (hparameters : m.parameters = [only])
    (hvalues : a.expandedValues = [.null]) : generalFinding? ctx m a =
      if (m.form ctx only).takes .null then none
      else some ((Finding.new a.location (mismatchMessage [0])).withProperty "indices" "0") := by
  have hcount : (RowParameters.ofMethod ctx m).takesCount 1 = true := by
    refine RowParameters.takesCount_iff.2 ⟨?_, fun _ => ?_⟩
    · have hle : m.required ≤ m.parameters.length := List.countP_le_length
      rwa [hparameters] at hle
    · rw [hparameters]
      exact Nat.le_refl 1
  have hmismatches : (RowParameters.ofMethod ctx m).mismatches [.null] =
      if (m.form ctx only).takes .null then [] else [0] := by
    rw [RowParameters.mismatches, List.zipIdx_singleton, List.length_singleton,
      List.filter_singleton]
    dsimp only
    rw [takesAt_loneNull hparameters]
    cases (m.form ctx only).takes .null <;> rfl
  unfold generalFinding?
  rw [hvalues]
  dsimp only
  rw [List.length_singleton, hcount, hmismatches]
  cases (m.form ctx only).takes .null with
  | true => rfl
  | false => rfl

/-- The finding without its properties. -/
def withoutProperties (finding : Finding) : Finding :=
  { finding with properties := [] }

theorem rowFinding?_of_loneNull (hparameters : m.parameters = [only])
    (hvalues : a.expandedValues = [.null]) :
    rowFinding? ctx m a = (generalFinding? ctx m a).map withoutProperties := by
  rw [generalFinding?_loneNull hparameters hvalues]
  unfold rowFinding?
  rw [hvalues, hparameters]
  dsimp only
  rw [Method.form]
  split
  · rfl
  · rfl

theorem rowFinding?_or (ctx : CheckedFile) (m : Method) (a : Attribute) :
    rowFinding? ctx m a = generalFinding? ctx m a ∨
      rowFinding? ctx m a = (generalFinding? ctx m a).map withoutProperties := by
  by_cases hlone : ∃ only, m.parameters = [only] ∧ a.expandedValues = [.null]
  · obtain ⟨only, hparameters, hvalues⟩ := hlone
    exact .inr (rowFinding?_of_loneNull hparameters hvalues)
  · refine .inl ?_
    unfold rowFinding?
    split
    case h_1 only hvalues hparameters => exact absurd ⟨only, hparameters, hvalues⟩ hlone
    case h_2 => rfl

/-- A lone null before a lone parameter is judged as by the general way, but what is found is
said without the property that names the places. -/
theorem rowFinding?_loneNull (hparameters : m.parameters = [only])
    (hvalues : a.expandedValues = [.null]) :
    rowFinding? ctx m a = (generalFinding? ctx m a).map withoutProperties ∧
      (∀ finding, generalFinding? ctx m a = some finding →
        finding.properties = [("indices", "0")]) ∧
      (rowFinding? ctx m a = generalFinding? ctx m a ↔ (m.form ctx only).takes .null = true) := by
  refine ⟨rowFinding?_of_loneNull hparameters hvalues, ?_, ?_⟩
  · intro finding h
    rw [generalFinding?_loneNull hparameters hvalues] at h
    split at h
    · cases h
    · cases h
      rfl
  · rw [rowFinding?_of_loneNull hparameters hvalues, generalFinding?_loneNull hparameters hvalues]
    cases (m.form ctx only).takes .null with
    | true => exact iff_of_true rfl rfl
    | false =>
      refine iff_of_false (fun h => ?_) Bool.false_ne_true
      have hproperties := congrArg Finding.properties (Option.some.inj h)
      cases hproperties

/-- A row of nulls. -/
def nullRow (count : Nat) : Attribute where
  name := "DataRow"
  target := none
  arguments := List.replicate count ⟨none, .null, "null", ⟨1, 20, some 1, some 24, none⟩⟩
  location := ⟨1, 12, some 1, some 25, none⟩
  nameLocation := ⟨1, 12, some 1, some 19, none⟩
  handle := ⟨0, 11, 24⟩

theorem rowFinding?_loneNull_int : ∃ only, (methodOfOne "int" []).parameters = [only] ∧
    (nullRow 1).expandedValues = [.null] ∧
    rowFinding? default (methodOfOne "int" []) (nullRow 1) =
      (generalFinding? default (methodOfOne "int" []) (nullRow 1)).map withoutProperties ∧
    (∀ finding, generalFinding? default (methodOfOne "int" []) (nullRow 1) = some finding →
      finding.properties = [("indices", "0")]) ∧
    (rowFinding? default (methodOfOne "int" []) (nullRow 1) =
        generalFinding? default (methodOfOne "int" []) (nullRow 1) ↔
      ((methodOfOne "int" []).form default only).takes .null = true) :=
  ⟨_, rfl, rfl, rowFinding?_loneNull rfl rfl⟩

/-- The places of a lone null that does not fit are not among the properties. -/
theorem property_of_lone_null_is_lost :
    let finding := Finding.new ⟨1, 12, some 1, some 25, none⟩ (mismatchMessage [0])
    rowFinding? default (methodOfOne "int" []) (nullRow 1) = some finding ∧
      generalFinding? default (methodOfOne "int" []) (nullRow 1) =
        some (finding.withProperty "indices" "0") := by
  decide +kernel

end Findings

/-- Nothing is found in a row if and only if its values bind to the parameters and no null is taken
by a mark that is lost; else one finding says which values do not fit. -/
theorem rowFinding?_spec (ctx : CheckedFile) (m : Method) (a : Attribute) :
    (rowFinding? ctx m a = none ↔ Binds ctx m a.expandedValues ∧
      ∀ i, ¬ MarkLostAt ctx m a.expandedValues i) ∧
    ∀ finding, rowFinding? ctx m a = some finding → SaysOf ctx m a finding := by
  constructor
  · have hgeneral : rowFinding? ctx m a = none ↔ generalFinding? ctx m a = none := by
      rcases rowFinding?_or ctx m a with h | h
      · rw [h]
      · rw [h, Option.map_eq_none_iff]
    rw [hgeneral, generalFinding?_eq_none_iff, binds_iff, and_assoc,
      List.eq_nil_iff_forall_not_mem]
    simp only [RowParameters.mem_mismatches_ofMethod_iff, not_or, forall_and]
  · intro finding h
    rcases rowFinding?_or ctx m a with heq | heq
    · exact generalFinding?_says (heq ▸ h)
    · rw [heq] at h
      obtain ⟨general, hgeneral, rfl⟩ := Option.map_eq_some_iff.1 h
      obtain ⟨hlocation, hcount, hplaces⟩ := generalFinding?_says hgeneral
      exact ⟨hlocation, hcount, hplaces⟩

/-- Two nulls bind to an array of elements that may be null, and are reported. -/
theorem nulls_of_marked_elements_are_reported :
    let m := methodOfOne "int?[]" ["params"]
    Binds default m (nullRow 2).expandedValues ∧
      (rowFinding? default m (nullRow 2)).map (·.message) = some (mismatchMessage [0, 1]) := by
  intro m
  refine ⟨⟨⟨by decide +kernel, by decide +kernel⟩, fun i p value hp => ?_, fun p hp => .inr ?_⟩,
    by decide +kernel⟩
  · have hfixed : m.fixed = [] := by decide +kernel
    rw [hfixed] at hp
    cases hp
  · obtain rfl : _ = p := Option.some.inj hp
    decide +kernel

end Check

end TestLint
