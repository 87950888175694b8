import Mathlib.Data.Set.Card
import TestLint.Proofs.Check.RepeatedRow
import TestLint.Proofs.Expression.SameConstant

/-!
# How many rows of data are given twice

Of the rows of a method, the first one with its data is passed over and every other one is
reported once, with the first one and the places of the two among all attributes.  So there are
as many reports as there are rows beyond the different ones (`Check.duplicateDataRow_spec`).
-/

namespace TestLint

namespace Attribute

/-- The name of the type of objects or of strings, which may be marked as nullable. -/
def IsObjectOrString (elementType : String) : Prop :=
  ∃ name ∈ ["object", "Object", "System.Object", "string", "String", "System.String"], ∃ marks,
    elementType.toList = name.toList ++ List.replicate marks '?'

theorem spreads_iff {elementType : String} :
    spreads elementType = true ↔ IsObjectOrString elementType := by
  have hnames : ∀ name, name ∈ spreadElementTypes ↔
      name ∈ ["object", "Object", "System.Object", "string", "String", "System.String"] := by
    intro name
    simp only [spreadElementTypes, List.mem_cons, List.not_mem_nil, or_false]
    tauto
  have hunmarked : ∀ name ∈ spreadElementTypes, name.toList.getLast? ≠ some '?' := by decide
  rw [spreads, List.contains_iff_mem, Text.onString]
  constructor
  · intro hmem
    have hlast := hunmarked _ hmem
    rw [String.toList_ofList] at hlast
    obtain ⟨marks, hmarks⟩ := (Text.dropEndWhile_eq_iff hlast).1 rfl
    exact ⟨_, (hnames _).1 hmem, marks, by rw [String.toList_ofList]; exact hmarks⟩
  · rintro ⟨name, hname, marks, hmarks⟩
    have hmem := (hnames name).2 hname
    rwa [(Text.dropEndWhile_eq_iff (hunmarked name hmem)).2 ⟨marks, hmarks⟩, String.ofList_toList]

/-- The one argument for a parameter is an array that is written as one of objects or strings. -/
def IsLoneArray (a : Attribute) (elements : List Constant) : Prop :=
  ∃ elementType, IsObjectOrString elementType ∧
    a.positional.map (·.value) = [.array (some elementType) elements]

theorem IsLoneArray.expandedValues_eq {a : Attribute} {elements : List Constant}
    (h : a.IsLoneArray elements) : a.expandedValues = elements := by
  obtain ⟨elementType, hspreads, hpositional⟩ := h
  rw [a.expandedValues_eq, hpositional, spread, Constant.typed?]
  exact if_pos (spreads_iff.2 hspreads)

theorem expandedValues_of_not_isLoneArray {a : Attribute}
    (h : ∀ elements, ¬ a.IsLoneArray elements) :
    a.expandedValues = a.positional.map (·.value) := by
  rw [a.expandedValues_eq]
  unfold spread
  split
  case h_2 => rfl
  case h_1 single hsingle =>
    split
    case h_2 => exact hsingle.symm
    case h_1 elementType elements htyped =>
      split
      case isFalse => exact hsingle.symm
      case isTrue hspreads =>
        refine absurd ⟨elementType, spreads_iff.1 hspreads, ?_⟩ (h elements)
        unfold Constant.typed? at htyped
        split at htyped
        · cases htyped
          exact hsingle
        · cases htyped

/-- The data that a row gives. -/
def rowData (a : Attribute) : List Constant :=
  Constant.zerolessAll a.expandedValues

theorem IsLoneArray.rowData_eq {a : Attribute} {elements : List Constant}
    (h : a.IsLoneArray elements) : a.rowData = Constant.zerolessAll elements := by
  rw [rowData, h.expandedValues_eq]

theorem rowData_of_not_isLoneArray {a : Attribute} (h : ∀ elements, ¬ a.IsLoneArray elements) :
    a.rowData = Constant.zerolessAll (a.positional.map (·.value)) := by
  rw [rowData, expandedValues_of_not_isLoneArray h]

end Attribute

namespace Check

namespace Row

def data (row : Row) : List Constant :=
  Constant.zerolessAll row.values

theorem same_iff {a b : Row} : a.same b = true ↔ a.data = b.data :=
  Constant.sameList_iff a.values b.values

theorem IsOf.data_eq {ctx : CheckedFile} {m : Method} {row : Row} (h : row.IsOf ctx m) :
    row.data = row.written.rowData := by
  rw [data, h.values_eq, Attribute.rowData]

/-! ## Which rows are repetitions -/

theorem map_snd_repetitions_sublist (seen rows : List Row) :
    ((repetitions seen rows).map (·.2)).Sublist rows := by
  induction rows generalizing seen with
  | nil => exact .slnil
  | cons row rest ih =>
    rw [repetitions, List.map_append]
    cases seen.find? (·.same row) with
    | none => exact (ih _).cons row
    | some first => exact (ih _).cons_cons row

/-- In rows that stand in the order of their indices. -/
theorem mem_repetitions_iff_of_ordered {rows : List Row} (hrows : rows.Pairwise (·.index < ·.index))
    {first later : Row} : (first, later) ∈ repetitions [] rows ↔
      first ∈ rows ∧ later ∈ rows ∧ first.index < later.index ∧ first.data = later.data ∧
        ∀ row ∈ rows, row.index < first.index → row.data ≠ later.data := by
  rw [mem_repetitions_iff]
  simp only [List.nil_append, List.find?_eq_some_iff_append, same_iff]
  constructor
  · rintro ⟨before, after, rfl, hsame, earlier, between, rfl, hearlier⟩
    rw [List.append_assoc, List.cons_append] at hrows ⊢
    obtain ⟨-, hbehind, -⟩ := List.pairwise_append.1 hrows
    have hlt := (List.pairwise_cons.1 hbehind).1
    refine ⟨by simp, by simp, hlt later (by simp), hsame, fun row hrow hrowlt => ?_⟩
    rcases List.mem_append.1 hrow with hrow | hrow
    · have hother := hearlier row hrow
      rw [Ne, ← same_iff]
      simpa using hother
    · rcases List.mem_cons.1 hrow with rfl | hrow
      · omega
      · have := hlt row hrow
        omega
  · rintro ⟨hfirst, hlater, hlt, hsame, hleast⟩
    obtain ⟨before, after, rfl⟩ := List.append_of_mem hlater
    obtain ⟨-, hbehind, -⟩ := List.pairwise_append.1 hrows
    have hafter := (List.pairwise_cons.1 hbehind).1
    have hbefore : first ∈ before := by
      rcases List.mem_append.1 hfirst with h | h
      · exact h
      · rcases List.mem_cons.1 h with rfl | h
        · omega
        · have := hafter first h
          omega
    obtain ⟨earlier, between, rfl⟩ := List.append_of_mem hbefore
    refine ⟨_, after, rfl, hsame, earlier, between, rfl, fun row hrow => ?_⟩
    have hrowlt : row.index < first.index := by
      rw [List.append_assoc] at hrows
      exact (List.pairwise_append.1 hrows).2.2 row hrow first (by simp)
    have hne := hleast row (by simp [hrow]) hrowlt
    rw [Ne, ← same_iff] at hne
    simpa using hne

/-! ## How many -/

/-- Every row adds to the repetitions, or else to the different data. -/
theorem length_repetitions (seen rows : List Row) :
    (repetitions seen rows).length + {v | v ∈ (seen ++ rows).map data}.ncard =
      rows.length + {v | v ∈ seen.map data}.ncard := by
  induction rows generalizing seen with
  | nil => rw [repetitions, List.append_nil]; rfl
  | cons row rest ih =>
    have hih := ih (seen ++ [row])
    rw [List.append_assoc, List.singleton_append] at hih
    have hinsert : {v | v ∈ (seen ++ [row]).map data} =
        insert row.data {v | v ∈ seen.map data} := by
      ext v
      simp [or_comm, eq_comm]
    rw [hinsert] at hih
    rw [repetitions, List.length_append, List.length_cons]
    cases hfound : seen.find? (·.same row) with
    | some first =>
      have hmem : row.data ∈ {v | v ∈ seen.map data} := by
        have hsame : first.same row = true := by simpa using List.find?_some hfound
        rw [← same_iff.1 hsame]
        exact List.mem_map_of_mem (List.mem_of_find?_eq_some hfound)
      rw [Set.insert_eq_of_mem hmem] at hih
      simp only [Option.map_some, Option.toList_some, List.length_singleton]
      omega
    | none =>
      have hmem : row.data ∉ {v | v ∈ seen.map data} := by
        rintro h
        obtain ⟨first, hfirst, hdata⟩ := List.mem_map.1 h
        exact List.find?_eq_none.1 hfound first hfirst (same_iff.2 hdata)
      rw [Set.ncard_insert_of_notMem hmem (List.finite_toSet _)] at hih
      simp only [Option.map_none, Option.toList_none, List.length_nil]
      omega

theorem length_ofMethod (ctx : CheckedFile) (m : Method) : (ofMethod ctx m).length =
    m.attributes.countP (ctx.framework.attributeIs ctx.compilation ctx.file · .dataRow) := by
  rw [ofMethod, List.length_map, ← List.countP_eq_length_filter]
  conv_rhs => rw [← List.zipIdx_map_fst 0 m.attributes, List.countP_map]
  refine List.countP_congr fun placed _ => ?_
  rw [Function.comp_apply]

end Row

/-- The attribute gives a row of data. -/
def IsRow (ctx : CheckedFile) (a : Attribute) : Prop :=
  ctx.framework.attributeIs ctx.compilation ctx.file a .dataRow = true

/-- How many different data the rows of a method give. -/
noncomputable def distinctRows (ctx : CheckedFile) (m : Method) : Nat :=
  {v | ∃ a ∈ m.attributes, IsRow ctx a ∧ a.rowData = v}.ncard

theorem distinctRows_eq (ctx : CheckedFile) (m : Method) :
    distinctRows ctx m = {v | v ∈ (Row.ofMethod ctx m).map Row.data}.ncard := by
  rw [distinctRows]
  congr 1
  ext v
  simp only [Set.mem_ofPred_eq, List.mem_map, Row.mem_ofMethod_iff]
  constructor
  · rintro ⟨a, ha, hrow, rfl⟩
    obtain ⟨i, hi⟩ := List.getElem?_of_mem ha
    exact ⟨⟨i, a, a.expandedValues⟩, ⟨hi, hrow, rfl⟩, rfl⟩
  · rintro ⟨row, hrow, rfl⟩
    exact ⟨row.written, List.mem_of_getElem? hrow.written_eq, hrow.is_row, hrow.data_eq.symm⟩

/-- The second of two rows of a method is behind the first, which is the first one of all rows
that give its data. -/
structure FirstRepeated (ctx : CheckedFile) (m : Method) (first later : Row) : Prop where
  first_row : first.IsOf ctx m
  later_row : later.IsOf ctx m
  lt : first.index < later.index
  data_eq : first.written.rowData = later.written.rowData
  is_first : ∀ row : Row, row.IsOf ctx m → row.index < first.index →
    row.written.rowData ≠ later.written.rowData

theorem firstRepeated_iff {ctx : CheckedFile} {m : Method} {first later : Row} :
    (first, later) ∈ Row.repetitions [] (Row.ofMethod ctx m) ↔
      FirstRepeated ctx m first later := by
  rw [Row.mem_repetitions_iff_of_ordered (Row.pairwise_ofMethod ctx m)]
  simp only [Row.mem_ofMethod_iff]
  constructor
  · rintro ⟨hfirst, hlater, hlt, hdata, hleast⟩
    refine ⟨hfirst, hlater, hlt, ?_, fun row hrow hrowlt => ?_⟩
    · rwa [← hfirst.data_eq, ← hlater.data_eq]
    · rw [← hrow.data_eq, ← hlater.data_eq]
      exact hleast row hrow hrowlt
  · rintro ⟨hfirst, hlater, hlt, hdata, hleast⟩
    refine ⟨hfirst, hlater, hlt, ?_, fun row hrow hrowlt => ?_⟩
    · rwa [hfirst.data_eq, hlater.data_eq]
    · rw [hrow.data_eq, hlater.data_eq]
      exact hleast row hrow hrowlt

/-- What is reported of a row that repeats the data of another one. -/
def repetitionFinding (first later : Row) : Finding :=
  Finding.new later.written.location
      (s!"Do not duplicate 'DataRow' attributes. This is usually a copy/paste error. " ++
        s!"The attribute indices are '{first.index}' and '{later.index}'")
    |>.withLocation first.written.location
    |>.withSuggestion "Remove the duplicate row or change its arguments"

/-- Every row whose data an earlier row of its method gives is reported once, after the first row
with these data, so that the reports are the rows beyond the different ones.  The data of a row
are its arguments, or the elements of a lone array of objects or strings, so that such an array
gives the same data as its elements that are written as arguments. -/
theorem duplicateDataRow_spec (ctx : CheckedFile) :
    (∃ found : Method → List (Row × Row),
      duplicateDataRow ctx = ctx.methods.flatMap (fun m =>
        (found m).map fun (first, later) => repetitionFinding first later) ∧
      ∀ m, (found m).Pairwise (·.2.index < ·.2.index) ∧
        (∀ first later, (first, later) ∈ found m ↔ FirstRepeated ctx m first later) ∧
        (found m).length + distinctRows ctx m = m.attributes.countP
          (ctx.framework.attributeIs ctx.compilation ctx.file · .dataRow)) ∧
    (∀ (a : Attribute) elements, a.IsLoneArray elements →
      a.rowData = Constant.zerolessAll elements) ∧
    (∀ a : Attribute, (∀ es, ¬ a.IsLoneArray es) →
      a.rowData = Constant.zerolessAll (a.positional.map (·.value))) ∧
    ∀ (a b : Attribute) elements, a.IsLoneArray elements →
      b.positional.map (·.value) = elements → (∀ es, ¬ b.IsLoneArray es) →
      a.rowData = b.rowData := by
  refine ⟨⟨fun m => Row.repetitions [] (Row.ofMethod ctx m), ?_, fun m =>
    ⟨?_, fun _ _ => firstRepeated_iff, ?_⟩⟩, fun a elements ha => ha.rowData_eq,
    fun a hplain => Attribute.rowData_of_not_isLoneArray hplain,
    fun a b elements ha hb hplain => ?_⟩
  · rfl
  · have hordered := (Row.pairwise_ofMethod ctx m).sublist
      (Row.map_snd_repetitions_sublist [] (Row.ofMethod ctx m))
    rwa [List.pairwise_map] at hordered
  · have hlength := Row.length_repetitions [] (Row.ofMethod ctx m)
    rw [List.nil_append, ← distinctRows_eq, Row.length_ofMethod] at hlength
    simpa using hlength
  · rw [ha.rowData_eq, Attribute.rowData_of_not_isLoneArray hplain, hb]

/-- A row with one argument, which starts in this column. -/
def rowOf (value : Constant) (column : Nat) : Attribute where
  name := "DataRow"
  target := none
  arguments := [⟨none, value, "", .point 1 (column + 8)⟩]
  location := .point 1 column
  nameLocation := .point 1 column
  handle := default

/-- A method with four rows of data, the last two of which repeat the first two, one of them as an
array. -/
def fourRowsMethod : Method :=
  { (default : Method) with
    attributes := [rowOf (.integer 1) 10, rowOf (.integer 2) 21, rowOf (.integer 1) 32,
      rowOf (.array (some "object") [.integer 2]) 43] }

/-- The method in the one class of a project that refers to the framework. -/
def fourRows : CheckedFile :=
  let t : TypeDeclaration := { (default : TypeDeclaration) with methods := [fourRowsMethod] }
  let file : SourceFile := { (default : SourceFile) with declarations.types := [t] }
  ⟨⟨[file], .empty⟩, ⟨true⟩, file⟩

theorem duplicateDataRow_spec_fourRows :
    ∃ one two again array, fourRowsMethod.attributes = [one, two, again, array] ∧
      one.rowData = [.integer 1] ∧ two.rowData = [.integer 2] ∧ again.rowData = one.rowData ∧
      array.IsLoneArray [.integer 2] ∧ array.rowData = two.rowData ∧
      duplicateDataRow fourRows =
        [repetitionFinding ⟨0, one, [.integer 1]⟩ ⟨2, again, [.integer 1]⟩,
         repetitionFinding ⟨1, two, [.integer 2]⟩ ⟨3, array, [.integer 2]⟩] ∧
      distinctRows fourRows fourRowsMethod = 2 := by
  obtain ⟨⟨found, hfound, hrows⟩, hlone, hplain, -⟩ := duplicateDataRow_spec fourRows
  have hdata {a : Attribute} {n : Int} (h : a.positional.map (·.value) = [.integer n]) :
      a.rowData = [.integer n] := by
    rw [hplain a, h]
    · rfl
    · rintro es ⟨elementType, -, harray⟩
      rw [h] at harray
      cases harray
  have hspread : (rowOf (.array (some "object") [.integer 2]) 43).IsLoneArray [.integer 2] :=
    ⟨"object", ⟨"object", by decide, 0, rfl⟩, rfl⟩
  have hreports : duplicateDataRow fourRows =
      [repetitionFinding ⟨0, rowOf (.integer 1) 10, [.integer 1]⟩
        ⟨2, rowOf (.integer 1) 32, [.integer 1]⟩,
       repetitionFinding ⟨1, rowOf (.integer 2) 21, [.integer 2]⟩
        ⟨3, rowOf (.array (some "object") [.integer 2]) 43, [.integer 2]⟩] := by
    decide +kernel
  have hcount : fourRowsMethod.attributes.countP (fourRows.framework.attributeIs
      fourRows.compilation fourRows.file · .dataRow) = 4 := by decide +kernel
  have hlength : (found fourRowsMethod).length = 2 := by
    have hmap := congrArg List.length (hfound.symm.trans hreports)
    simpa [CheckedFile.methods, CheckedFile.types, fourRows] using hmap
  have hdistinct := (hrows fourRowsMethod).2.2
  rw [hlength, hcount] at hdistinct
  refine ⟨_, _, _, _, rfl, hdata rfl, hdata rfl, (hdata rfl).trans (hdata rfl).symm, hspread, ?_,
    hreports, by omega⟩
  rw [hlone _ _ hspread, hdata rfl]
  rfl

end Check

end TestLint
