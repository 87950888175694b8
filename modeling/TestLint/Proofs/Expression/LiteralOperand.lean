import TestLint.Proofs.Expression.WrittenArgument

/-!
# Operands that are literals

An expression is read in two ways: for its value, as the arguments of attributes are, and for
its shape, as the arguments of assertions are.  Where the shape is a literal, its value is the
value of the expression (`Operand.ofTree_eq_literal_iff`).

The value of an expression hangs on nothing but how it is written: on the kinds and texts of
its nodes (`Tree.SameWriting`), not on where they stand (`Constant.ofTree_eq_of_sameWriting`).
So an expression that is written in an attribute and in an assertion has one value in both
(`Operand.views_agree`).
-/

namespace TestLint

/-! ## Writings -/

/-- What is the same for any two items of one writing is the same for lists of them. -/
theorem map_eq_of_map_eq {α β γ δ : Type} {w : α → γ} {w' : β → γ} {g : α → δ} {g' : β → δ}
    {as : List α} {bs : List β} (hmap : as.map w = bs.map w')
    (h : ∀ a ∈ as, ∀ b, w a = w' b → g a = g' b) : as.map g = bs.map g' := by
  induction as generalizing bs with
  | nil => rw [List.map_eq_nil_iff.1 hmap.symm]; rfl
  | cons a as ih =>
    obtain ⟨b, bs, rfl, hb, hbs⟩ := List.map_eq_cons_iff.1 hmap.symm
    obtain ⟨ha, has⟩ := List.forall_mem_cons.1 h
    rw [List.map_cons, List.map_cons, ha b hb.symm, ih hbs.symm has]

/-- A tree without the places of its nodes. -/
inductive Writing where
  | node (kind : String) (field : Option String) (named : Bool) (text : String)
      (children : List Writing)

namespace Writing

def kind : Writing → String
  | node kind .. => kind

def field : Writing → Option String
  | node _ field .. => field

def text : Writing → String
  | node _ _ _ text _ => text

/-- What is written is code. -/
def isCode : Writing → Bool
  | node kind field named _ _ => (Tree.node ⟨kind, field, named, false, 0, 0⟩ []).isCode

end Writing

namespace Tree

mutual

/-- What is written at a node and below it. -/
def writing (source : List Char) : Tree → Writing
  | .node info children =>
    .node info.kind info.field info.named ((Tree.node info children).text source)
      (writings source children)

def writings (source : List Char) : List Tree → List Writing
  | [] => []
  | child :: rest => writing source child :: writings source rest

end

variable {source source' : List Char} {t t' : Tree}

theorem writings_eq (ts : List Tree) : writings source ts = ts.map (writing source) := by
  induction ts with
  | nil => rfl
  | cons child rest ih => rw [writings, ih, List.map_cons]

theorem writing_eq (t : Tree) : t.writing source =
    .node t.kind t.field t.named (t.text source) (t.children.map (writing source)) := by
  obtain ⟨info, children⟩ := t
  rw [writing, writings_eq]
  rfl

@[simp] theorem writing_kind (t : Tree) : (t.writing source).kind = t.kind := by
  rw [writing_eq, Writing.kind]

@[simp] theorem writing_field (t : Tree) : (t.writing source).field = t.field := by
  rw [writing_eq, Writing.field]

@[simp] theorem writing_text (t : Tree) : (t.writing source).text = t.text source := by
  rw [writing_eq, Writing.text]

@[simp] theorem writing_isCode (t : Tree) : (t.writing source).isCode = t.isCode := by
  rw [writing_eq]
  rfl

/-- The same expression is written at two nodes, in one source or in two.  Under which fields
their parents hold them does not matter. -/
structure SameWriting (source source' : List Char) (t t' : Tree) : Prop where
  kind : t.kind = t'.kind
  text : t.text source = t'.text source'
  below : t.children.map (writing source) = t'.children.map (writing source')

theorem SameWriting.of_writing_eq (h : t.writing source = t'.writing source') :
    SameWriting source source' t t' where
  kind := by simpa using congrArg Writing.kind h
  text := by simpa using congrArg Writing.text h
  below := by
    rw [writing_eq, writing_eq, Writing.node.injEq] at h
    exact h.2.2.2.2

theorem rel_of_map_eq {c? c'? : Option Tree}
    (h : c?.map (writing source) = c'?.map (writing source')) :
    Option.Rel (SameWriting source source') c? c'? := by
  cases c? with
  | none =>
    rw [Option.map_none, eq_comm, Option.map_eq_none_iff] at h
    rw [h]
    exact .none
  | some c =>
    obtain ⟨c', rfl, hc'⟩ := Option.map_eq_some_iff.1 h.symm
    exact .some (.of_writing_eq hc'.symm)

namespace SameWriting

variable (h : SameWriting source source' t t')

include h

theorem trimmedText_eq : t.trimmedText source = t'.trimmedText source' := by
  rw [trimmedText, trimmedText, h.text]

/-- Both nodes have a child under the field, with the same writing, or neither has one. -/
theorem childByField? (field : String) :
    Option.Rel (SameWriting source source') (t.childByField? field) (t'.childByField? field) := by
  refine rel_of_map_eq ?_
  have hfind (source : List Char) (t : Tree) : (t.childByField? field).map (writing source) =
      (t.children.map (writing source)).find? (·.field == some field) := by
    rw [List.find?_map]
    simp only [Function.comp_def, writing_field]
    rfl
  rw [hfind, hfind, h.below]

theorem codeChildren :
    t.codeChildren.map (writing source) = t'.codeChildren.map (writing source') := by
  have hfilter (source : List Char) (t : Tree) : t.codeChildren.map (writing source) =
      (t.children.map (writing source)).filter (·.isCode) := by
    rw [List.filter_map]
    simp only [Function.comp_def, writing_isCode]
    rfl
  rw [hfilter, hfilter, h.below]

theorem lastCode? :
    Option.Rel (SameWriting source source') t.codeChildren.getLast? t'.codeChildren.getLast? := by
  refine rel_of_map_eq ?_
  rw [← List.getLast?_map, ← List.getLast?_map, h.codeChildren]

theorem firstCode? :
    Option.Rel (SameWriting source source') t.codeChildren.head? t'.codeChildren.head? := by
  refine rel_of_map_eq ?_
  rw [← List.head?_map, ← List.head?_map, h.codeChildren]

theorem codeOfKind? (kind : String) : Option.Rel (SameWriting source source')
    (t.codeChildren.find? (·.kind == kind)) (t'.codeChildren.find? (·.kind == kind)) := by
  refine rel_of_map_eq ?_
  have hfind (source : List Char) (ts : List Tree) : (ts.find? (·.kind == kind)).map
      (writing source) = (ts.map (writing source)).find? (·.kind == kind) := by
    rw [List.find?_map]
    simp only [Function.comp_def, writing_kind]
  rw [hfind, hfind, h.codeChildren]

end SameWriting

end Tree

/-! ## Values of writings -/

namespace Constant

variable {source source' : List Char} {t t' : Tree}

theorem elementType?_of_sameWriting (h : t.SameWriting source source' t') :
    elementType? source t = elementType? source' t' := by
  have htype := h.childByField? "type"
  rw [elementType?, elementType?]
  generalize t.childByField? "type" = type, t'.childByField? "type" = type' at htype
  cases htype with
  | none => rfl
  | some htype => rw [Option.map_some, Option.map_some, htype.text]

theorem nameOf?_of_sameWriting (h : t.SameWriting source source' t') :
    nameOf? source t = nameOf? source' t' := by
  have hfunction := h.childByField? "function"
  have harguments := h.childByField? "arguments"
  rw [nameOf?, nameOf?]
  generalize t.childByField? "function" = function, t'.childByField? "function" = function'
    at hfunction
  generalize t.childByField? "arguments" = arguments, t'.childByField? "arguments" = arguments'
    at harguments
  cases hfunction with
  | none => rfl
  | some hfunction =>
    cases harguments with
    | none => simp
    | @some arguments arguments' harguments =>
      have hread : (arguments.codeChildren.head?.bind fun first =>
            some (nameOf (Name.simple (first.trimmedText source)))) =
          arguments'.codeChildren.head?.bind fun first =>
            some (nameOf (Name.simple (first.trimmedText source'))) := by
        have hfirst := harguments.firstCode?
        generalize arguments.codeChildren.head? = first, arguments'.codeChildren.head? = first'
          at hfirst
        cases hfirst with
        | none => rw [Option.bind_none, Option.bind_none]
        | some hfirst => rw [Option.bind_some, Option.bind_some, hfirst.trimmedText_eq]
      simp only [Option.bind_eq_bind, Option.bind_some, hfunction.text, hread]

theorem ofLeaf_of_sameWriting (h : t.SameWriting source source' t') :
    ofLeaf source t = ofLeaf source' t' := by
  have htype : Option.Rel (Tree.SameWriting source source')
      (t.childByField? "type" <|> t.codeChildren.getLast?)
      (t'.childByField? "type" <|> t'.codeChildren.getLast?) := by
    have hfield := h.childByField? "type"
    generalize t.childByField? "type" = type, t'.childByField? "type" = type' at hfield
    cases hfield with
    | none => exact h.lastCode?
    | some hfield => exact .some hfield
  have hexpression := h.childByField? "expression"
  have hname := h.childByField? "name"
  rw [ofLeaf, ofLeaf, h.kind, h.trimmedText_eq, nameOf?_of_sameWriting h]
  generalize (t.childByField? "type" <|> t.codeChildren.getLast?) = type,
    (t'.childByField? "type" <|> t'.codeChildren.getLast?) = type' at htype
  generalize t.childByField? "expression" = expression,
    t'.childByField? "expression" = expression' at hexpression
  generalize t.childByField? "name" = name, t'.childByField? "name" = name' at hname
  split
  case h_9 =>
    cases htype with
    | none => rfl
    | some htype => simp only [htype.text]
  case h_12 =>
    cases hexpression with
    | none => rfl
    | some hexpression =>
      cases hname with
      | none => rfl
      | some hname => simp only [hexpression.text, hname.text]
  all_goals rfl

/-- The same constants are read off two nodes, and off their children: the elements of an array
stand two levels down. -/
structure SameRead (source source' : List Char) (t t' : Tree) : Prop where
  value : ofTree source t = ofTree source' t'
  first : ofFirst? source t.children = ofFirst? source' t'.children
  elements : ofElements source t.children = ofElements source' t'.children

section node

variable (h : t.SameWriting source source' t')
  (hbelow : ∀ c ∈ t.codeChildren, ∀ c', c.SameWriting source source' c' →
    SameRead source source' c c')

include h hbelow

theorem ofLast?_of_sameWriting :
    ofLast? source t.children = ofLast? source' t'.children := by
  rw [ofLast?_eq, ofLast?_eq, ← List.getLast?_map, ← List.getLast?_map]
  exact congrArg List.getLast? (map_eq_of_map_eq h.codeChildren fun c hc c' hcc =>
    (hbelow c hc c' (.of_writing_eq hcc)).value)

theorem ofFirst?_of_sameWriting :
    ofFirst? source t.children = ofFirst? source' t'.children := by
  rw [ofFirst?_eq, ofFirst?_eq, ← List.head?_map, ← List.head?_map]
  exact congrArg List.head? (map_eq_of_map_eq h.codeChildren fun c hc c' hcc =>
    (hbelow c hc c' (.of_writing_eq hcc)).value)

theorem ofElements_of_sameWriting :
    ofElements source t.children = ofElements source' t'.children := by
  rw [ofElements_eq, ofElements_eq]
  refine map_eq_of_map_eq h.codeChildren fun c hc c' hcc => ?_
  have hsame := Tree.SameWriting.of_writing_eq hcc
  have hread := hbelow c hc c' hsame
  rw [hsame.kind, hread.first, hread.value]

theorem ofInitializer_of_sameWriting :
    ofInitializer source t.children = ofInitializer source' t'.children := by
  rw [ofInitializer_eq, ofInitializer_eq, ← Tree.codeChildren, ← Tree.codeChildren]
  have hinitializer := h.codeOfKind? "initializer_expression"
  cases hfound : t.codeChildren.find? (·.kind == "initializer_expression") with
  | none =>
    rw [hfound] at hinitializer
    generalize t'.codeChildren.find? _ = found' at hinitializer
    cases hinitializer
    rfl
  | some c =>
    have hmem := List.mem_of_find?_eq_some hfound
    rw [hfound] at hinitializer
    generalize t'.codeChildren.find? _ = found' at hinitializer
    cases hinitializer with
    | some hsame => exact (hbelow c hmem _ hsame).elements

end node

theorem sameRead_of_sameWriting (h : t.SameWriting source source' t') :
    SameRead source source' t t' := by
  induction t using Tree.induction_on generalizing t' with
  | node info children ih =>
    have hbelow : ∀ c ∈ (Tree.node info children).codeChildren, ∀ c',
        c.SameWriting source source' c' → SameRead source source' c c' :=
      fun c hc c' hsame => ih c (Tree.mem_of_mem_codeChildren hc) hsame
    refine ⟨?_, ofFirst?_of_sameWriting h hbelow, ofElements_of_sameWriting h hbelow⟩
    have hlast := ofLast?_of_sameWriting h hbelow
    have helements := ofElements_of_sameWriting h hbelow
    have hinitializer := ofInitializer_of_sameWriting h hbelow
    have helement := elementType?_of_sameWriting h
    have hleaf := ofLeaf_of_sameWriting h
    have htext := h.trimmedText_eq
    have hkind := h.kind
    obtain ⟨info', children'⟩ := t'
    simp only [Tree.children, Tree.kind, Tree.info] at hlast helements hinitializer hkind
    rw [ofTree, ofTree]
    simp only [hlast, helements, hinitializer, helement, hleaf, htext, hkind]

/-- The value of an expression hangs on what is written. -/
theorem ofTree_eq_of_sameWriting (h : t.SameWriting source source' t') :
    ofTree source t = ofTree source' t' :=
  (sameRead_of_sameWriting h).value

end Constant

/-! ## Shapes that are literals -/

namespace Operand

variable {source : List Char} {t : Tree}

/-- The expression is taken for a literal: it is written as one, as a sign in front of anything
or as `nameof(x)`, perhaps in parentheses. -/
inductive IsLiteral (source : List Char) : Tree → Prop
  | value {t : Tree} (hkind : t.kind ∈ literalKinds) : IsLiteral source t
  | signed {t operand : Tree} (hkind : t.kind = "prefix_unary_expression")
      (hoperand : t.codeChildren.getLast? = some operand)
      (hsign : (Text.trimStart (t.text source).toList).head? ∈ [some '-', some '+']) :
      IsLiteral source t
  | nameOf {t : Tree} {value : Constant} (hkind : t.kind = "invocation_expression")
      (hvalue : Constant.nameOf? source t = some value) : IsLiteral source t
  | parenthesized {t inner : Tree} (hkind : t.kind = "parenthesized_expression")
      (hinner : t.codeChildren.getLast? = some inner) (h : IsLiteral source inner) :
      IsLiteral source t

theorem ofTree_parenthesized (hkind : t.kind = "parenthesized_expression") :
    ofTree source t = (t.codeChildren.getLast?.map (ofTree source)).getD (.other t.kind) := by
  obtain ⟨⟨kind, field, named, missing, start, stop⟩, children⟩ := t
  obtain rfl : kind = _ := hkind
  rw [ofTree, Tree.codeChildren, Tree.children, ← ofLast?_eq]
  rfl

theorem ofTree_signed {operand : Tree} (hkind : t.kind = "prefix_unary_expression")
    (hoperand : t.codeChildren.getLast? = some operand)
    (hsign : (Text.trimStart (t.text source).toList).head? ∈ [some '-', some '+']) :
    ofTree source t = .literal (Constant.ofTree source t) := by
  obtain ⟨info, children⟩ := t
  have hlast : ofLast? source children = some (ofTree source operand) := by
    rw [ofLast?_eq]
    exact congrArg (Option.map (ofTree source)) hoperand
  rw [ofTree]
  dsimp only
  split
  case isTrue => rfl
  case isFalse =>
    split
    case h_5 =>
      split
      case h_1 =>
        have hbang : (Text.trimStart ((Tree.node info children).text source).toList).head? ≠
            some '!' := by
          intro h
          rw [h] at hsign
          exact absurd hsign (by decide)
        rw [if_neg hbang, if_pos (by simpa using hsign)]
      case h_2 hnone => exact (hnone _ _ hoperand hlast).elim
    case h_13 =>
      have hinfo : info.kind = "prefix_unary_expression" := hkind
      contradiction
    all_goals
      rename_i hother
      rw [Tree.kind, Tree.info, hother] at hkind
      exact absurd hkind (by decide)

theorem ofTree_nameOf {value : Constant} (hkind : t.kind = "invocation_expression")
    (hvalue : Constant.nameOf? source t = some value) : ofTree source t = .literal value := by
  obtain ⟨info, children⟩ := t
  rw [ofTree]
  dsimp only
  split
  case isTrue hliteral =>
    rw [show info.kind = _ from hkind] at hliteral
    exact absurd hliteral (by decide)
  case isFalse =>
    split
    case h_10 => rw [hvalue]
    case h_13 =>
      have hinfo : info.kind = "invocation_expression" := hkind
      contradiction
    all_goals
      rename_i hother
      rw [Tree.kind, Tree.info, hother] at hkind
      exact absurd hkind (by decide)

theorem ofTree_of_isLiteral (h : IsLiteral source t) :
    ofTree source t = .literal (Constant.ofTree source t) := by
  induction h with
  | @value t hkind =>
    obtain ⟨info, children⟩ := t
    rw [ofTree]
    exact if_pos (List.contains_iff_mem.2 hkind)
  | signed hkind hoperand hsign => exact ofTree_signed hkind hoperand hsign
  | nameOf hkind hvalue =>
    rw [ofTree_nameOf hkind hvalue, WrittenArgument.ofTree_nameOf hkind, hvalue, Option.getD_some]
  | @parenthesized t inner hkind hinner h ih =>
    rw [ofTree_parenthesized hkind, WrittenArgument.ofTree_wrapped (by simp [hkind]), hinner,
      Option.map_some, Option.map_some, Option.getD_some, Option.getD_some, ih]

theorem isLiteral_of_ofTree {v : Constant} (h : ofTree source t = .literal v) :
    IsLiteral source t := by
  induction t using Tree.induction_on with
  | node info children ih =>
    rw [ofTree] at h
    dsimp only at h
    split at h
    case isTrue hkind => exact .value (List.contains_iff_mem.1 hkind)
    case isFalse =>
      split at h
      case h_1 hkind =>
        rw [ofLast?_eq] at h
        cases hlast : (children.filter Tree.isCode).getLast? with
        | none =>
          rw [hlast] at h
          cases h
        | some inner =>
          rw [hlast] at h
          have hmem : inner ∈ children := (List.mem_filter.1 (List.mem_of_getLast? hlast)).1
          exact .parenthesized hkind hlast (ih inner hmem h)
      case h_5 hkind =>
        split at h
        case h_1 inner operand hinner hoperand =>
          split at h
          case isTrue => cases h
          case isFalse =>
            split at h
            case isTrue hsign => exact .signed hkind hinner (by simpa using hsign)
            case isFalse => cases h
        case h_2 => cases h
      case h_6 => split at h <;> cases h
      case h_7 => split at h <;> cases h
      case h_8 => split at h <;> cases h
      case h_10 hkind =>
        split at h
        case h_1 value hvalue => exact .nameOf hkind hvalue
        case h_2 => split at h <;> cases h
      all_goals cases h

/-- The shape of an expression is a literal exactly if it is written as one, and its value is
then the value of the expression. -/
theorem ofTree_eq_literal_iff {v : Constant} :
    ofTree source t = .literal v ↔ IsLiteral source t ∧ Constant.ofTree source t = v := by
  constructor
  · intro h
    have hliteral := isLiteral_of_ofTree h
    rw [ofTree_of_isLiteral hliteral, Operand.literal.injEq] at h
    exact ⟨hliteral, h⟩
  · rintro ⟨hliteral, rfl⟩
    exact ofTree_of_isLiteral hliteral

/-- The two views of an expression agree: its shape is a literal exactly if it is written as one,
and then with the value that is read off the expression wherever the same is written. -/
theorem views_agree (source : List Char) (t : Tree) (v : Constant) :
    (ofTree source t = .literal v ↔ IsLiteral source t ∧ Constant.ofTree source t = v) ∧
    ∀ source' t', t.SameWriting source source' t' → ofTree source t = .literal v →
      Constant.ofTree source' t' = v := by
  refine ⟨ofTree_eq_literal_iff, fun source' t' hsame hliteral => ?_⟩
  rw [← Constant.ofTree_eq_of_sameWriting hsame]
  exact (ofTree_eq_literal_iff.1 hliteral).2

/-- The tree of `(-(int)(1))`. -/
def negatedOne (start : Nat) : Tree :=
  .node ⟨"parenthesized_expression", none, true, false, start, start + 11⟩
    [.node ⟨"(", none, false, false, start, start + 1⟩ [],
     .node ⟨"prefix_unary_expression", none, true, false, start + 1, start + 10⟩
      [.node ⟨"-", none, false, false, start + 1, start + 2⟩ [],
       .node ⟨"cast_expression", none, true, false, start + 2, start + 10⟩
        [.node ⟨"(", none, false, false, start + 2, start + 3⟩ [],
         .node ⟨"predefined_type", some "type", true, false, start + 3, start + 6⟩ [],
         .node ⟨")", none, false, false, start + 6, start + 7⟩ [],
         .node ⟨"parenthesized_expression", some "value", true, false, start + 7, start + 10⟩
          [.node ⟨"(", none, false, false, start + 7, start + 8⟩ [],
           .node ⟨"integer_literal", none, true, false, start + 8, start + 9⟩ [],
           .node ⟨")", none, false, false, start + 9, start + 10⟩ []]]],
     .node ⟨")", none, false, false, start + 10, start + 11⟩ []]

/-- The expression as the argument of an assertion. -/
def inAssertion : List Char :=
  "Assert.IsNull((-(int)(1)));".toList

/-- The expression as the argument of an attribute. -/
def inAttribute : List Char :=
  "[DataRow((-(int)(1)))]".toList

theorem views_agree_negatedOne :
    (negatedOne 14).SameWriting inAssertion inAttribute (negatedOne 9) ∧
      ofTree inAssertion (negatedOne 14) = .literal (.integer (-1)) ∧
      Constant.ofTree inAttribute (negatedOne 9) = .integer (-1) := by
  have hsame : (negatedOne 14).SameWriting inAssertion inAttribute (negatedOne 9) := by
    refine ⟨rfl, by decide +kernel, ?_⟩
    simp only [negatedOne, Tree.children, Tree.writing, Tree.writings, List.map_cons, List.map_nil,
      List.cons.injEq, Writing.node.injEq, true_and, and_true]
    decide +kernel
  have hliteral : IsLiteral inAssertion (negatedOne 14) :=
    .parenthesized rfl rfl (.signed rfl rfl (by decide +kernel))
  obtain ⟨hshape, hvalue⟩ := views_agree inAssertion (negatedOne 14) (.integer (-1))
  have hshape := hshape.2 ⟨hliteral, rfl⟩
  exact ⟨hsame, hshape, hvalue inAttribute (negatedOne 9) hsame hshape⟩

end Operand

end TestLint
