import TestLint.Check.DuplicateDataRow
import TestLint.Proofs.Declaration.Places
import TestLint.Proofs.Expression.WrittenArgument

/-!
# Rows of data that are given twice

What is reported as a repetition is an attribute that stands behind another one of the same
method, both giving rows of data, whose expanded constants are the same.  If the arguments of
the two are written alike, the values that the test gets are equal
(`Check.duplicateDataRow_values_eq`).  Without this they may differ: of a character that is
written with a longer escape only the first character of the escape is read
(`Check.different_characters_are_reported`).
-/

namespace TestLint

/-! ## Arguments of attributes -/

namespace AttributeArgument

/-- The node of the value. -/
def valueNode (t : Tree) : Tree :=
  t.codeChildren.getLast?.getD t

theorem value_ofTree {source : List Char} {t : Tree} (h : (ofTree source t).name = none) :
    (ofTree source t).value = Constant.ofTree source (valueNode t) := by
  rw [ofTree] at h ⊢
  dsimp only at h ⊢
  split at h
  case h_1 =>
    -- an assignment names its left side
    split at h
    case isTrue => cases h
    case isFalse hkind => rw [if_neg hkind, valueNode]
  case h_2 => rfl

end AttributeArgument

namespace Attribute

def argumentNodes (t : Tree) : List Tree :=
  match t.childOfKind? "attribute_argument_list" with
  | some list => list.childrenOfKind "attribute_argument"
  | none => []

/-- The nodes of the values of the arguments without a name. -/
def positionalNodes (source : List Char) (t : Tree) : List Tree :=
  ((argumentNodes t).filter fun n => (AttributeArgument.ofTree source n).name.isNone).map
    AttributeArgument.valueNode

/-- The attribute was read off the node. -/
def ReadOff (file : SourceFile) (a : Attribute) (t : Tree) : Prop :=
  ∃ target, ofTree? file.id file.source target t = some a

theorem ReadOff.arguments_eq {file : SourceFile} {a : Attribute} {t : Tree} (h : a.ReadOff file t) :
    a.arguments = (argumentNodes t).map (AttributeArgument.ofTree file.source) := by
  obtain ⟨target, h⟩ := h
  simp only [ofTree?, Option.bind_eq_bind, Option.bind_eq_some_iff] at h
  obtain ⟨name, -, h⟩ := h
  cases h
  dsimp only
  rw [argumentNodes]
  cases t.childOfKind? "attribute_argument_list" <;> rfl

theorem ReadOff.positional_values {file : SourceFile} {a : Attribute} {t : Tree}
    (h : a.ReadOff file t) : a.positional.map (·.value) =
      (positionalNodes file.source t).map (Constant.ofTree file.source) := by
  rw [positional, h.arguments_eq, List.filter_map, List.map_map, positionalNodes, List.map_map]
  refine List.map_congr_left fun n hn => ?_
  have hname := (List.mem_filter.1 hn).2
  exact AttributeArgument.value_ofTree (Option.isNone_iff_eq_none.1 hname)

/-- The attributes of a declaration were read off nodes of it. -/
theorem exists_node_of_mem_ofDeclaration {file : SourceFile} {a : Attribute} {t : Tree}
    (h : a ∈ ofDeclaration file.id file.source t) : ∃ n, t.Holds n ∧ a.ReadOff file n := by
  obtain ⟨list, hlist, ha⟩ := List.mem_flatMap.1 h
  obtain ⟨n, hn, ha⟩ := List.mem_filterMap.1 ha
  exact ⟨n, .inner (Tree.mem_of_mem_childrenOfKind hlist).1
    (.of_mem (Tree.mem_of_mem_childrenOfKind hn).1), _, ha⟩

end Attribute

theorem Method.exists_attribute_node {file : SourceFile} {t : Tree} {m : Method}
    (h : ofTree? file.id file.source t = some m) {a : Attribute} (ha : a ∈ m.attributes) :
    ∃ n, t.Holds n ∧ a.ReadOff file n := by
  simp only [ofTree?, Option.bind_eq_bind, Option.bind_eq_some_iff] at h
  obtain ⟨name, -, h⟩ := h
  cases h
  exact Attribute.exists_node_of_mem_ofDeclaration ha

/-! ## Rows of data -/

namespace Attribute

/-- The arguments that a lone array passes for the parameters are its elements. -/
def spread {α : Type} (typed? : α → Option (String × List α)) : List α → List α
  | [single] =>
    match typed? single with
    | some (elementType, elements) => if spreads elementType then elements else [single]
    | none => [single]
  | arguments => arguments

/-- What corresponds one by one still does so after a lone array is spread. -/
theorem spread_forall₂ {α β : Type} {typed? : α → Option (String × List α)}
    {typed?' : β → Option (String × List β)} {R : α → β → Prop}
    (hR : ∀ a b, R a b → Option.Rel (fun p q => p.1 = q.1 ∧ List.Forall₂ R p.2 q.2)
      (typed? a) (typed?' b)) {as : List α} {bs : List β} (h : List.Forall₂ R as bs) :
    List.Forall₂ R (spread typed? as) (spread typed?' bs) := by
  match as, bs, h with
  | [], [], h => exact h
  | _ :: _ :: _, _ :: _ :: _, h => exact h
  | [a], [b], h =>
    have hab : R a b := by
      cases h
      assumption
    have hrel := hR a b hab
    rw [spread, spread]
    generalize typed? a = x at hrel ⊢
    generalize typed?' b = y at hrel ⊢
    cases hrel with
    | none => exact h
    | @some p q hpq =>
      obtain ⟨elementType, elements⟩ := p
      obtain ⟨elementType', elements'⟩ := q
      obtain ⟨rfl, helements⟩ : elementType = elementType' ∧ _ := hpq
      dsimp only
      split
      · exact helements
      · exact h

end Attribute

def Constant.typed? : Constant → Option (String × List Constant)
  | .array (some elementType) elements => some (elementType, elements)
  | _ => none

def WrittenArgument.typed? : WrittenArgument → Option (String × List WrittenArgument)
  | .array (.typed elementType) elements => some (elementType, elements)
  | _ => none

def DataValue.typed? : DataValue → Option (String × List DataValue)
  | .array (.typed elementType) elements => some (elementType, elements)
  | _ => none

theorem Attribute.expandedValues_eq (a : Attribute) :
    a.expandedValues = spread Constant.typed? (a.positional.map (·.value)) := by
  rw [expandedValues]
  split
  case h_1 single hsingle =>
    rw [hsingle, List.map_cons, List.map_nil, spread]
    split
    case h_1 helements =>
      rw [helements, Constant.typed?]
    case h_2 hother =>
      have htyped : Constant.typed? single.value = none := by
        unfold Constant.typed?
        split
        case h_1 helements => exact absurd helements (hother _ _)
        case h_2 => rfl
      rw [htyped]
  case h_2 hother =>
    unfold spread
    split
    case h_1 heq =>
      obtain ⟨b, hb, -⟩ := List.map_eq_singleton_iff.1 heq
      exact absurd hb (hother b)
    case h_2 => rfl

/-! ### Literals are no arrays -/

namespace WrittenLiteral

theorem typed?_constant (l : WrittenLiteral) : Constant.typed? l.constant = none := by
  have hbare : Constant.typed? (bareConstant l.kind l.text) = none := by
    unfold bareConstant
    split
    case h_3 => cases Literal.integer? l.text.toList <;> rfl
    case h_4 => cases Literal.real? l.text.toList <;> rfl
    case h_5 => cases Literal.character? l.text.toList <;> rfl
    all_goals rfl
  rw [constant]
  split
  case isTrue =>
    unfold negated
    split
    case h_3 => exact hbare
    all_goals rfl
  case isFalse => exact hbare

theorem typed?_value {l : WrittenLiteral} {v : DataValue} (h : l.value? = some v) :
    DataValue.typed? v = none := by
  obtain ⟨isNegated, kind, text⟩ := l
  cases gives_of_value h <;> rfl

end WrittenLiteral

namespace WrittenArgument

theorem forall₂_constants (es : List WrittenArgument) :
    List.Forall₂ (fun e c => e.constant = c) es (constants es) := by
  induction es with
  | nil => exact .nil
  | cons e rest ih => exact .cons rfl ih

theorem constants_eq_of_forall₂ {es : List WrittenArgument} {cs : List Constant}
    (h : List.Forall₂ (fun e c => e.constant = c) es cs) : cs = constants es := by
  induction h with
  | nil => rfl
  | cons he _ ih => rw [← he, ih, constants]

theorem forall₂_values?_iff {es : List WrittenArgument} {vs : List DataValue} :
    List.Forall₂ (fun e v => e.value? = some v) es vs ↔ values? es = some vs := by
  induction es generalizing vs with
  | nil =>
    rw [List.forall₂_nil_left_iff, values?, Option.some.injEq, eq_comm]
  | cons e rest ih =>
    rw [List.forall₂_cons_left_iff, values?_cons_eq_some_iff]
    simp only [ih]

/-- The constants of the arguments that a row gives. -/
theorem constants_spread (es : List WrittenArgument) :
    constants (Attribute.spread typed? es) = Attribute.spread Constant.typed? (constants es) := by
  refine (constants_eq_of_forall₂ (Attribute.spread_forall₂ ?_ (forall₂_constants es))).symm
  rintro e _ rfl
  cases e with
  | literal l =>
    rw [constant, l.typed?_constant]
    exact .none
  | nameOf text name => exact .none
  | array form elements =>
    cases form with
    | typed elementType => exact .some ⟨rfl, forall₂_constants elements⟩
    | inferred => exact .none
  | collection texts elements => exact .none

/-- The values of the arguments that a row gives. -/
theorem values?_spread {es : List WrittenArgument} {vs : List DataValue}
    (h : values? es = some vs) :
    values? (Attribute.spread typed? es) = some (Attribute.spread DataValue.typed? vs) := by
  refine forall₂_values?_iff.1 (Attribute.spread_forall₂ ?_ (forall₂_values?_iff.2 h))
  intro e v hv
  cases e with
  | literal l =>
    rw [value?] at hv
    rw [WrittenLiteral.typed?_value hv]
    exact .none
  | nameOf text name =>
    obtain ⟨units, -, rfl⟩ := Option.map_eq_some_iff.1 hv
    exact .none
  | array form elements =>
    rw [value?] at hv
    obtain ⟨values, hvalues, rfl⟩ := Option.map_eq_some_iff.1 hv
    cases form with
    | typed elementType => exact .some ⟨rfl, forall₂_values?_iff.2 hvalues⟩
    | inferred => exact .none
  | collection texts elements =>
    rw [value?] at hv
    obtain ⟨values, -, rfl⟩ := Option.map_eq_some_iff.1 hv
    exact .none

end WrittenArgument

namespace Check

/-! ## Findings -/

namespace Row

/-- A row is a repetition of the first row that stands before it and has its values. -/
theorem mem_repetitions_iff {seen rows : List Row} {first later : Row} :
    (first, later) ∈ repetitions seen rows ↔ ∃ before after, rows = before ++ later :: after ∧
      (seen ++ before).find? (·.same later) = some first := by
  induction rows generalizing seen with
  | nil => simp [repetitions]
  | cons row rest ih =>
    rw [repetitions, List.mem_append, Option.mem_toList, Option.map_eq_some_iff, ih]
    constructor
    · rintro (⟨found, hfound, hpair⟩ | ⟨before, after, rfl, hfound⟩)
      · cases hpair
        exact ⟨[], rest, rfl, by rwa [List.append_nil]⟩
      · refine ⟨row :: before, after, rfl, ?_⟩
        rwa [List.append_assoc, List.singleton_append] at hfound
    · rintro ⟨before, after, hrows, hfound⟩
      rcases List.cons_eq_append_iff.1 hrows with ⟨rfl, heq⟩ | ⟨before, rfl, rfl⟩
      · cases heq
        rw [List.append_nil] at hfound
        exact .inl ⟨first, hfound, rfl⟩
      · refine .inr ⟨before, after, rfl, ?_⟩
        rwa [List.append_assoc, List.singleton_append]

variable {ctx : CheckedFile} {m : Method} {row : Row}

/-- The attribute at the index of the row gives it. -/
structure IsOf (ctx : CheckedFile) (m : Method) (row : Row) : Prop where
  written_eq : m.attributes[row.index]? = some row.written
  is_row : ctx.framework.attributeIs ctx.compilation ctx.file row.written .dataRow = true
  values_eq : row.values = row.written.expandedValues

theorem mem_ofMethod_iff : row ∈ ofMethod ctx m ↔ row.IsOf ctx m := by
  constructor
  · intro h
    obtain ⟨⟨a, i⟩, hmem, rfl⟩ := List.mem_map.1 h
    obtain ⟨hmem, hrow⟩ := List.mem_filter.1 hmem
    exact ⟨List.mk_mem_zipIdx_iff_getElem?.1 hmem, hrow, rfl⟩
  · rintro ⟨hwritten, hrow, hvalues⟩
    refine List.mem_map.2 ⟨(row.written, row.index), List.mem_filter.2
      ⟨List.mk_mem_zipIdx_iff_getElem?.2 hwritten, hrow⟩, ?_⟩
    dsimp only
    rw [← hvalues]

theorem pairwise_ofMethod (ctx : CheckedFile) (m : Method) :
    (ofMethod ctx m).Pairwise (·.index < ·.index) := by
  have hplaces : m.attributes.zipIdx.Pairwise (·.2 < ·.2) := by
    rw [← List.pairwise_map, List.zipIdx_map_snd]
    exact List.pairwise_lt_range'
  rw [ofMethod, List.pairwise_map]
  exact hplaces.filter _

end Row

/-- The finding says of the attributes at these two places that the second gives the data of the
first. -/
structure Repeats (ctx : CheckedFile) (finding : Finding) (m : Method) (i j : Nat)
    (first later : Attribute) : Prop where
  method : m ∈ ctx.methods
  first_eq : m.attributes[i]? = some first
  later_eq : m.attributes[j]? = some later
  lt : i < j
  first_row : ctx.framework.attributeIs ctx.compilation ctx.file first .dataRow = true
  later_row : ctx.framework.attributeIs ctx.compilation ctx.file later .dataRow = true
  location : finding.location = later.location
  additionalLocations : finding.additionalLocations = [first.location]

theorem exists_repeats {ctx : CheckedFile} {finding : Finding}
    (h : finding ∈ duplicateDataRow ctx) : ∃ m i j first later,
      Repeats ctx finding m i j first later ∧
        Constant.sameList first.expandedValues later.expandedValues = true := by
  obtain ⟨m, hm, h⟩ := List.mem_flatMap.1 h
  obtain ⟨⟨first, later⟩, hpair, rfl⟩ := List.mem_map.1 h
  obtain ⟨before, after, hrows, hfound⟩ := Row.mem_repetitions_iff.1 hpair
  rw [List.nil_append] at hfound
  have hfirst : first ∈ before := List.mem_of_find?_eq_some hfound
  have hsame : first.same later = true := by simpa using List.find?_some hfound
  have hmem : first ∈ Row.ofMethod ctx m := by
    rw [hrows]
    exact List.mem_append_left _ hfirst
  have hmem' : later ∈ Row.ofMethod ctx m := by
    rw [hrows]
    exact List.mem_append_right _ List.mem_cons_self
  have hlt : first.index < later.index := by
    have hpairwise := Row.pairwise_ofMethod ctx m
    rw [hrows] at hpairwise
    exact (List.pairwise_append.1 hpairwise).2.2 first hfirst later List.mem_cons_self
  obtain ⟨hplace, hrow, hvalues⟩ := Row.mem_ofMethod_iff.1 hmem
  obtain ⟨hplace', hrow', hvalues'⟩ := Row.mem_ofMethod_iff.1 hmem'
  rw [Row.same, hvalues, hvalues'] at hsame
  exact ⟨m, _, _, _, _, ⟨hm, hplace, hplace', hlt, hrow, hrow', rfl, rfl⟩, hsame⟩

/-- The attributes of the methods of a file were read off nodes of its tree. -/
theorem exists_node_of_mem_methods {parse : Parser} {sources : List (Path × String)}
    {project : ProjectFacts} {framework : Framework} {file : SourceFile}
    (hfile : file ∈ (Compilation.ofSources parse sources project).files) {m : Method}
    (hm : m ∈ CheckedFile.methods ⟨Compilation.ofSources parse sources project, framework, file⟩)
    {a : Attribute} (ha : a ∈ m.attributes) : ∃ n, file.tree.Holds n ∧ a.ReadOff file n := by
  obtain ⟨⟨⟨path, text⟩, id⟩, -, rfl⟩ := List.mem_map.1 hfile
  obtain ⟨t, ht, hm⟩ := List.mem_flatMap.1 hm
  obtain ⟨n, hn, hread⟩ := FileDeclarations.exists_method_node ht hm
  obtain ⟨n', hn', ha⟩ :=
    @Method.exists_attribute_node (SourceFile.read parse id path text) n m hread a ha
  exact ⟨n', hn.trans hn', ha⟩

theorem expandedValues_eq_constants {file : SourceFile} {a : Attribute} {n : Tree}
    {es : List WrittenArgument} {vs : List DataValue} (hread : a.ReadOff file n)
    (hwritten :
      WrittenArgument.AllWritten file.source (Attribute.positionalNodes file.source n) es)
    (hvs : WrittenArgument.values? es = some vs) : a.expandedValues =
      WrittenArgument.constants (Attribute.spread WrittenArgument.typed? es) := by
  rw [a.expandedValues_eq, hread.positional_values, hwritten.map_ofTree_eq hvs,
    WrittenArgument.constants_spread]

/-- The values of two rows that a finding calls equal are equal, if the arguments of the rows are
written alike. -/
theorem duplicateDataRow_values_eq {parse : Parser} {sources : List (Path × String)}
    {project : ProjectFacts} {framework : Framework} {file : SourceFile}
    (hfile : file ∈ (Compilation.ofSources parse sources project).files) {finding : Finding}
    (hfinding : finding ∈ duplicateDataRow
      ⟨Compilation.ofSources parse sources project, framework, file⟩) :
    ∃ m i j first later,
      Repeats ⟨Compilation.ofSources parse sources project, framework, file⟩ finding m i j
        first later ∧
      (∃ n, file.tree.Holds n ∧ first.ReadOff file n) ∧
      (∃ n, file.tree.Holds n ∧ later.ReadOff file n) ∧
      ∀ n n' es es' vs vs', first.ReadOff file n → later.ReadOff file n' →
        WrittenArgument.AllWritten file.source (Attribute.positionalNodes file.source n) es →
        WrittenArgument.AllWritten file.source (Attribute.positionalNodes file.source n') es' →
        WrittenArgument.values? es = some vs → WrittenArgument.values? es' = some vs' →
        WrittenArgument.AllAlike (Attribute.spread WrittenArgument.typed? es)
          (Attribute.spread WrittenArgument.typed? es') →
        Attribute.spread DataValue.typed? vs = Attribute.spread DataValue.typed? vs' := by
  obtain ⟨m, i, j, first, later, hrepeats, hsame⟩ := exists_repeats hfinding
  refine ⟨m, i, j, first, later, hrepeats,
    exists_node_of_mem_methods hfile hrepeats.method (List.mem_of_getElem? hrepeats.first_eq),
    exists_node_of_mem_methods hfile hrepeats.method (List.mem_of_getElem? hrepeats.later_eq), ?_⟩
  intro n n' es es' vs vs' hread hread' hwritten hwritten' hvs hvs' halike
  rw [expandedValues_eq_constants hread hwritten hvs,
    expandedValues_eq_constants hread' hwritten' hvs'] at hsame
  exact halike.values_eq (WrittenArgument.values?_spread hvs) (WrittenArgument.values?_spread hvs')
    hsame

/-- A row of data from an offset on, with one literal. -/
def rowNode (kind : String) (start length : Nat) : Tree :=
  .node ⟨"attribute", none, true, false, start, start + length + 9⟩
    [.node ⟨"identifier", some "name", true, false, start, start + 7⟩ [],
     .node ⟨"attribute_argument_list", none, true, false, start + 7, start + length + 9⟩
      [.node ⟨"attribute_argument", none, true, false, start + 8, start + length + 8⟩
        [.node ⟨kind, none, true, false, start + 8, start + length + 8⟩ []]]]

theorem isCode_of_literal {t : Tree} (hkind : t.kind ∈ WrittenLiteral.kinds) (hnamed : t.named) :
    t.isCode := by
  have hcode : ∀ kind ∈ WrittenLiteral.kinds,
      (kind == "comment" || Text.startsWith kind "preproc") = false := by decide +kernel
  rw [Tree.isCode, Tree.isTrivia, hcode _ hkind, hnamed]
  rfl

/-- The row gives its literal. -/
theorem allWritten_rowNode {source : List Char} {kind text : String} {start length : Nat}
    (hkind : kind ∈ WrittenLiteral.kinds)
    (htext : Text.trimmed (String.ofList
      ((Text.slice? (start + 8) (start + length + 8) source).getD [])) = text) :
    WrittenArgument.AllWritten source (Attribute.positionalNodes source (rowNode kind start length))
      [.literal ⟨false, kind, text⟩] := by
  let literal : Tree := .node ⟨kind, none, true, false, start + 8, start + length + 8⟩ []
  let argument : Tree :=
    .node ⟨"attribute_argument", none, true, false, start + 8, start + length + 8⟩ [literal]
  have hchildren : argument.codeChildren = [literal] := by
    have hcode : literal.isCode = true := isCode_of_literal hkind rfl
    rw [Tree.codeChildren, Tree.children, List.filter_cons_of_pos hcode, List.filter_nil]
  have hname : (AttributeArgument.ofTree source argument).name = none := by
    rw [AttributeArgument.ofTree, hchildren]
    simp only [WrittenLiteral.kinds, List.mem_cons, List.not_mem_nil, or_false] at hkind
    rcases hkind with rfl | rfl | rfl | rfl | rfl | rfl | rfl | rfl <;> rfl
  have hnodes : Attribute.positionalNodes source (rowNode kind start length) = [literal] := by
    have harguments : Attribute.argumentNodes (rowNode kind start length) = [argument] := rfl
    rw [Attribute.positionalNodes, harguments, List.filter_cons_of_pos (by rw [hname]; rfl),
      List.filter_nil, List.map_singleton, AttributeArgument.valueNode, hchildren]
    rfl
  have htrimmed : literal.trimmedText source = text := htext
  rw [hnodes, ← htrimmed]
  exact .cons (.literal hkind) .nil

/-- A test with two rows of data, each with one literal. -/
def rowsTree (kind kind' : String) (length length' : Nat) : Tree :=
  let returns := length + length' + 29
  .node ⟨"compilation_unit", none, true, false, 0, returns + 11⟩
    [.node ⟨"class_declaration", none, true, false, 0, returns + 11⟩
      [.node ⟨"identifier", some "name", true, false, 6, 7⟩ [],
       .node ⟨"declaration_list", some "body", true, false, 7, returns + 11⟩
        [.node ⟨"method_declaration", none, true, false, 8, returns + 10⟩
          [.node ⟨"attribute_list", none, true, false, 8, returns⟩
            [rowNode kind 9 length, rowNode kind' (length + 19) length'],
           .node ⟨"predefined_type", some "returns", true, false, returns, returns + 4⟩ [],
           .node ⟨"identifier", some "name", true, false, returns + 5, returns + 6⟩ [],
           .node ⟨"parameter_list", some "parameters", true, false, returns + 6, returns + 8⟩ [],
           .node ⟨"block", some "body", true, false, returns + 8, returns + 10⟩ []]]]]

/-- The source of the test as the one file of a compilation that refers to the framework. -/
def rowsContext (kind kind' text text' : String) : CheckedFile :=
  let parse : Parser := fun _ => rowsTree kind kind' text.length text'.length
  let path : Path := ⟨"T.cs"⟩
  let source := "class T\x7b[DataRow(" ++ text ++ "),DataRow(" ++ text' ++ ")]void M()\x7b\x7d\x7d"
  ⟨.ofSources parse [(path, source)] .empty, ⟨true⟩, .read parse 0 path source⟩

/-- What is found where the second of two attributes gives the data of the first. -/
def repeatedRow (first later : Location) : Finding :=
  Finding.new later
      ("Do not duplicate 'DataRow' attributes. This is usually a copy/paste error. " ++
        "The attribute indices are '0' and '1'")
    |>.withLocation first
    |>.withSuggestion "Remove the duplicate row or change its arguments"

/-- One string, written in the regular and in the verbatim form. -/
theorem duplicateDataRow_values_eq_forms :
    let ctx := rowsContext "string_literal" "verbatim_string_literal" "\"a\"" "@\"a\""
    let finding := repeatedRow ⟨1, 10, some 1, some 22, none⟩ ⟨1, 23, some 1, some 36, none⟩
    finding ∈ duplicateDataRow ctx ∧ ∃ m first later, Repeats ctx finding m 0 1 first later ∧
      ∃ n n' es es' vs vs', first.ReadOff ctx.file n ∧ later.ReadOff ctx.file n' ∧
        WrittenArgument.AllWritten ctx.file.source
          (Attribute.positionalNodes ctx.file.source n) es ∧
        WrittenArgument.AllWritten ctx.file.source
          (Attribute.positionalNodes ctx.file.source n') es' ∧
        WrittenArgument.values? es = some vs ∧ WrittenArgument.values? es' = some vs' ∧
        Attribute.spread DataValue.typed? vs = Attribute.spread DataValue.typed? vs' := by
  intro ctx finding
  have hfinding : finding ∈ duplicateDataRow ctx := by decide +kernel
  obtain ⟨m, i, j, first, later, hrepeats, -, -, hvalues⟩ :=
    duplicateDataRow_values_eq (List.mem_singleton.2 rfl) hfinding
  have hattributes : ∃ a a', m.attributes = [a, a'] ∧
      a.ReadOff ctx.file (rowNode "string_literal" 9 3) ∧
      a'.ReadOff ctx.file (rowNode "verbatim_string_literal" 22 4) := by
    obtain rfl := List.mem_singleton.1 hrepeats.method
    exact ⟨_, _, rfl, ⟨none, rfl⟩, ⟨none, rfl⟩⟩
  obtain ⟨a, a', hm, hread, hread'⟩ := hattributes
  obtain ⟨rfl, rfl, rfl, rfl⟩ : i = 0 ∧ j = 1 ∧ first = a ∧ later = a' := by
    obtain ⟨-, hfirst, hlater, hlt, -⟩ := hrepeats
    rw [hm] at hfirst hlater
    have hj : j < 2 := (List.getElem?_eq_some_iff.1 hlater).1
    obtain rfl : i = 0 := by omega
    obtain rfl : j = 1 := by omega
    exact ⟨rfl, rfl, (Option.some.inj hfirst).symm, (Option.some.inj hlater).symm⟩
  have hregular : WrittenLiteral.IsPlain "string_literal" "\"a\"".toList := by
    have htext : "\"a\"".toList = '"' :: (['a'] ++ ['"']) := by decide +kernel
    rw [htext]
    exact .regular (by decide)
  have hverbatim : WrittenLiteral.IsPlain "verbatim_string_literal" "@\"a\"".toList := by
    have htext : "@\"a\"".toList = '@' :: '"' :: (['a'] ++ ['"']) := by decide +kernel
    rw [htext]
    exact .verbatim (by decide)
  have hes : WrittenArgument.AllWritten ctx.file.source
      (Attribute.positionalNodes ctx.file.source (rowNode "string_literal" 9 3))
      [.literal ⟨false, "string_literal", "\"a\""⟩] :=
    allWritten_rowNode (by decide +kernel) (by decide +kernel)
  have hes' : WrittenArgument.AllWritten ctx.file.source
      (Attribute.positionalNodes ctx.file.source (rowNode "verbatim_string_literal" 22 4))
      [.literal ⟨false, "verbatim_string_literal", "@\"a\""⟩] :=
    allWritten_rowNode (by decide +kernel) (by decide +kernel)
  have hvs : WrittenArgument.values? [.literal ⟨false, "string_literal", "\"a\""⟩] =
      some [.string [97]] := rfl
  have hvs' : WrittenArgument.values?
      [.literal ⟨false, "verbatim_string_literal", "@\"a\""⟩] = some [.string [97]] := rfl
  exact ⟨hfinding, m, first, later, hrepeats, _, _, _, _, _, _, hread, hread', hes, hes', hvs, hvs',
    hvalues _ _ _ _ _ _ hread hread' hes hes' hvs hvs'
      (.cons (.literal (.plain hregular hverbatim)) .nil)⟩

/-- Two characters that are written with escapes of the same kind are taken for one. -/
theorem different_characters_are_reported :
    let ctx := rowsContext "character_literal" "character_literal" "'\\u0041'" "'\\u0042'"
    let n := rowNode "character_literal" 9 8
    let n' := rowNode "character_literal" 27 8
    duplicateDataRow ctx =
        [repeatedRow ⟨1, 10, some 1, some 27, none⟩ ⟨1, 28, some 1, some 45, none⟩] ∧
      (∀ m ∈ ctx.methods, ∃ first later, m.attributes = [first, later] ∧
        first.ReadOff ctx.file n ∧ later.ReadOff ctx.file n') ∧
      ∃ es es', WrittenArgument.AllWritten ctx.file.source
          (Attribute.positionalNodes ctx.file.source n) es ∧
        WrittenArgument.AllWritten ctx.file.source
          (Attribute.positionalNodes ctx.file.source n') es' ∧
        WrittenArgument.values? es = some [.char 0x41] ∧
        WrittenArgument.values? es' = some [.char 0x42] := by
  intro ctx n n'
  refine ⟨by decide +kernel, ?_, [.literal ⟨false, "character_literal", "'\\u0041'"⟩],
    [.literal ⟨false, "character_literal", "'\\u0042'"⟩], ?_, ?_, rfl, rfl⟩
  · intro m hm
    obtain rfl := List.mem_singleton.1 hm
    exact ⟨_, _, rfl, ⟨none, rfl⟩, ⟨none, rfl⟩⟩
  · exact allWritten_rowNode (by decide +kernel) (by decide +kernel)
  · exact allWritten_rowNode (by decide +kernel) (by decide +kernel)

end Check

end TestLint
