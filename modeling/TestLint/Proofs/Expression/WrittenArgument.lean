import Mathlib.Data.List.Forall2
import TestLint.Declaration.Basic
import TestLint.Proofs.Expression.LiteralForms
import TestLint.Proofs.Expression.Operand
import TestLint.Proofs.Syntax.Name

/-!
# What arguments stand for

An argument of an attribute is a literal, a `nameof` or an array of such arguments
(`WrittenArgument`).  A node of a tree writes it (`WrittenArgument.IsWritten`), and the constant
of the node is the constant of the argument (`WrittenArgument.IsWritten.ofTree_eq`).

Arguments that are alike and have the same constant have the same value
(`WrittenArgument.Alike.value_eq`).
-/

namespace TestLint

/-- An argument of an attribute as it is written. -/
inductive WrittenArgument where
  | literal (l : WrittenLiteral)
  /-- `nameof` of a text that gives this name. -/
  | nameOf (text name : String)
  | array (form : ArrayForm) (elements : List WrittenArgument)
  /-- A collection expression; its elements are kept as their texts. -/
  | collection (texts : List String) (elements : List WrittenArgument)

/-- The element type that an array is written with. -/
def ArrayForm.elementType? : ArrayForm → Option String
  | .typed elementType => some elementType
  | .inferred => none

namespace WrittenArgument

/-- The code units of a name, without the mark of a name that is a keyword. -/
def nameUnits? (name : String) : Option (List Nat) :=
  Literal.decode 0 ((Text.dropStart? ['@'] name.toList).getD name.toList)

mutual

/-- The value of the argument, where it has one. -/
def value? : WrittenArgument → Option DataValue
  | .literal l => l.value?
  | .nameOf _ name => (nameUnits? name).map .string
  | .array form elements => (values? elements).map (.array form)
  | .collection _ elements => (values? elements).map .collection

def values? : List WrittenArgument → Option (List DataValue)
  | [] => some []
  | e :: rest => (value? e).bind fun v => (values? rest).map (v :: ·)

end

mutual

/-- The constant that is read off the argument. -/
def constant : WrittenArgument → Constant
  | .literal l => l.constant
  | .nameOf text _ => .nameOf (Name.simple text)
  | .array form elements => .array form.elementType? (constants elements)
  | .collection texts _ => .array none (texts.map .nonConstant)

def constants : List WrittenArgument → List Constant
  | [] => []
  | e :: rest => constant e :: constants rest

end

theorem values?_cons_eq_some_iff {e : WrittenArgument} {rest : List WrittenArgument}
    {vs : List DataValue} : values? (e :: rest) = some vs ↔
      ∃ v more, value? e = some v ∧ values? rest = some more ∧ vs = v :: more := by
  rw [values?, Option.bind_eq_some_iff]
  constructor
  · rintro ⟨v, hv, h⟩
    obtain ⟨more, hmore, rfl⟩ := Option.map_eq_some_iff.1 h
    exact ⟨v, more, hv, hmore, rfl⟩
  · rintro ⟨v, more, hv, hmore, rfl⟩
    exact ⟨v, hv, Option.map_eq_some_iff.2 ⟨more, hmore, rfl⟩⟩

/-! ## Arguments that are alike -/

/-- Type arguments stand in the last segment of the text only, which begins with the name. -/
structure EndsIn (text name : String) : Prop where
  exists_parts : ∃ kept rest, text.toList = kept ++ (name.toList ++ rest) ∧ '<' ∉ kept ∧
    Name.lastSegment kept = [] ∧ (rest = [] ∨ rest.head? = some '<')
  plain : Name.PlainWord name.toList

theorem EndsIn.simple_eq {text name : String} (h : EndsIn text name) : Name.simple text = name := by
  obtain ⟨kept, rest, htext, hkept, hsegment, hrest⟩ := h.exists_parts
  have hcut : Name.withoutArguments (kept ++ (name.toList ++ rest)) =
      Name.withoutArguments (kept ++ name.toList) := by
    rw [Name.withoutArguments_append hkept h.plain, ← List.append_assoc]
    rcases hrest with rfl | hrest
    · rw [List.append_nil, Name.withoutArguments_append hkept h.plain]
    · obtain ⟨more, rfl⟩ : ∃ more, rest = '<' :: more := by
        cases rest with
        | nil => cases hrest
        | cons c more => exact ⟨more, by rw [Option.some.inj hrest]⟩
      have hbefore : '<' ∉ kept ++ name.toList := by
        intro hmem
        rcases List.mem_append.1 hmem with hmem | hmem
        · exact hkept hmem
        · exact h.plain.unmarked '<' (by simp) hmem
      rw [Name.withoutArguments, List.takeWhile_append_of_pos (Text.bne_of_not_mem hbefore),
        List.takeWhile_cons_of_neg (by decide), List.append_nil]
  have hsimple : Name.simpleChars text.toList = name.toList := by
    rw [htext, Name.simpleChars, hcut, ← Name.simpleChars,
      Name.simpleChars_append hkept h.plain, hsegment, List.nil_append]
  rw [Name.simple, Text.onString, hsimple, String.ofList_toList]

mutual

/-- The arguments are written in such ways that different values have different constants. -/
inductive Alike : WrittenArgument → WrittenArgument → Prop
  | same (e : WrittenArgument) : Alike e e
  | literal {l l' : WrittenLiteral} (h : l.Alike l') : Alike (.literal l) (.literal l')
  | nameOf {text text' name name' : String} (h : EndsIn text name) (h' : EndsIn text' name') :
      Alike (.nameOf text name) (.nameOf text' name')
  | array (form : ArrayForm) {es es' : List WrittenArgument} (h : AllAlike es es') :
      Alike (.array form es) (.array form es')
  /-- What is written with one text is one argument. -/
  | collection {texts texts' : List String} {es es' : List WrittenArgument}
      (h : texts = texts' → es = es') : Alike (.collection texts es) (.collection texts' es')

inductive AllAlike : List WrittenArgument → List WrittenArgument → Prop
  | nil : AllAlike [] []
  | cons {e e' : WrittenArgument} {rest rest' : List WrittenArgument} (h : Alike e e')
      (hrest : AllAlike rest rest') : AllAlike (e :: rest) (e' :: rest')

end

theorem sameList_nonConstant {texts texts' : List String} :
    Constant.sameList (texts.map .nonConstant) (texts'.map .nonConstant) = true ↔
      texts = texts' := by
  induction texts generalizing texts' with
  | nil => cases texts' <;> simp [Constant.sameList]
  | cons text rest ih =>
    cases texts' with
    | nil => simp [Constant.sameList]
    | cons text' rest' =>
      rw [List.map_cons, List.map_cons, Constant.sameList, Constant.same, Bool.and_eq_true,
        beq_iff_eq, ih, List.cons.injEq]

mutual

/-- Arguments that are alike and have the same constant have the same value. -/
theorem Alike.value_eq {e e' : WrittenArgument} (h : Alike e e') {v v' : DataValue}
    (hv : e.value? = some v) (hv' : e'.value? = some v')
    (hsame : Constant.same e.constant e'.constant = true) : v = v' := by
  cases h with
  | same => exact Option.some.inj (hv.symm.trans hv')
  | literal h =>
    rw [value?] at hv hv'
    rw [constant, constant] at hsame
    exact h.value_eq hv hv' hsame
  | nameOf h h' =>
    rw [constant, constant, h.simple_eq, h'.simple_eq, Constant.same, beq_iff_eq] at hsame
    rw [hsame, value?] at hv
    rw [value?] at hv'
    exact Option.some.inj (hv.symm.trans hv')
  | array form h =>
    rw [value?, Option.map_eq_some_iff] at hv hv'
    obtain ⟨vs, hvs, rfl⟩ := hv
    obtain ⟨vs', hvs', rfl⟩ := hv'
    rw [constant, constant, Constant.same, Bool.and_eq_true] at hsame
    rw [h.values_eq hvs hvs' hsame.2]
  | collection h =>
    rw [constant, constant, Constant.same, Bool.and_eq_true, sameList_nonConstant] at hsame
    rw [value?, h hsame.2] at hv
    rw [value?] at hv'
    exact Option.some.inj (hv.symm.trans hv')

theorem AllAlike.values_eq {es es' : List WrittenArgument} (h : AllAlike es es')
    {vs vs' : List DataValue} (hvs : values? es = some vs) (hvs' : values? es' = some vs')
    (hsame : Constant.sameList (constants es) (constants es') = true) : vs = vs' := by
  cases h with
  | nil =>
    cases hvs
    cases hvs'
    rfl
  | cons h hrest =>
    obtain ⟨v, more, hv, hmore, rfl⟩ := values?_cons_eq_some_iff.1 hvs
    obtain ⟨v', more', hv', hmore', rfl⟩ := values?_cons_eq_some_iff.1 hvs'
    rw [constants, constants, Constant.sameList, Bool.and_eq_true] at hsame
    rw [h.value_eq hv hv' hsame.1, hrest.values_eq hmore hmore' hsame.2]

end

/-! ## Arguments that nodes write -/

/-- The node names something, and the last of its names is this one. -/
inductive LastName : Tree → Tree → Prop
  | identifier {t : Tree} (hkind : t.kind = "identifier") : LastName t t
  | generic {t name : Tree} (hkind : t.kind = "generic_name")
      (hname : t.codeChildren.head? = some name) : LastName t name
  | member {t m name : Tree}
      (hkind : t.kind ∈ ["member_access_expression", "qualified_name", "alias_qualified_name"])
      (hmember : t.childByField? "name" = some m) (hname : LastName m name) : LastName t name
  | argument {t expression name : Tree} (hkind : t.kind = "argument")
      (hexpression : t.codeChildren.getLast? = some expression) (hname : LastName expression name) :
      LastName t name

/-- The node is the element of a collection that this expression gives. -/
def IsElement (t expression : Tree) : Prop :=
  t.kind = "collection_element" ∧ ∃ inner, t.codeChildren = [inner] ∧
    inner.kind = "expression_element" ∧ inner.codeChildren = [expression]

mutual

/-- The node writes the argument. -/
inductive IsWritten (source : List Char) : Tree → WrittenArgument → Prop
  | literal {t : Tree} (hkind : t.kind ∈ WrittenLiteral.kinds) :
      IsWritten source t (.literal ⟨false, t.kind, t.trimmedText source⟩)
  | signed {t number : Tree} {isNegated : Bool} (hkind : t.kind = "prefix_unary_expression")
      (hsign : (t.trimmedText source).toList.head? = some (if isNegated then '-' else '+'))
      (hoperand : t.codeChildren.getLast? = some number)
      (hnumber : number.kind = "integer_literal" ∨ number.kind = "real_literal") :
      IsWritten source t (.literal ⟨isNegated, number.kind, number.trimmedText source⟩)
  | nameOf {t function arguments first name : Tree} (hkind : t.kind = "invocation_expression")
      (hfunction : t.childByField? "function" = some function)
      (htext : function.text source = "nameof")
      (harguments : t.childByField? "arguments" = some arguments)
      (hfirst : arguments.codeChildren = [first]) (hname : LastName first name) :
      IsWritten source t (.nameOf (first.trimmedText source) (name.text source))
  /-- With a type that is written as its element type and one pair of brackets. -/
  | typed {t type initializer : Tree} {elementType inside : List Char} {es : List WrittenArgument}
      (hkind : t.kind = "array_creation_expression") (htype : t.childByField? "type" = some type)
      (hwritten : (type.text source).toList = elementType ++ '[' :: (inside ++ [']']))
      (helementType : '[' ∉ elementType) (hinside : ∀ c ∈ ['[', ','], c ∉ inside)
      (hinitializer :
        t.codeChildren.find? (·.kind == "initializer_expression") = some initializer)
      (hes : AllWritten source initializer.codeChildren es) :
      IsWritten source t (.array (.typed (String.ofList (Text.trim elementType))) es)
  | inferred {t initializer : Tree} {es : List WrittenArgument}
      (hkind : t.kind = "implicit_array_creation_expression")
      (htype : t.childByField? "type" = none)
      (hinitializer :
        t.codeChildren.find? (·.kind == "initializer_expression") = some initializer)
      (hes : AllWritten source initializer.codeChildren es) :
      IsWritten source t (.array .inferred es)
  | collection {t : Tree} {expressions : List Tree} {es : List WrittenArgument}
      (hkind : t.kind = "collection_expression") (htype : t.childByField? "type" = none)
      (helements : List.Forall₂ IsElement t.codeChildren expressions)
      (hes : AllWritten source expressions es) :
      IsWritten source t (.collection (t.codeChildren.map (·.trimmedText source)) es)

inductive AllWritten (source : List Char) : List Tree → List WrittenArgument → Prop
  | nil : AllWritten source [] []
  | cons {t : Tree} {e : WrittenArgument} {rest : List Tree} {more : List WrittenArgument}
      (h : IsWritten source t e) (hrest : AllWritten source rest more) :
      AllWritten source (t :: rest) (e :: more)

end

variable {source : List Char}

theorem kind_ne_expressionElement {t : Tree} {e : WrittenArgument} (h : IsWritten source t e) :
    t.kind ≠ "expression_element" := by
  intro heq
  cases h with
  | literal hkind =>
    rw [heq] at hkind
    exact absurd hkind (by decide)
  | signed hkind => exact absurd (heq.symm.trans hkind) (by decide)
  | nameOf hkind => exact absurd (heq.symm.trans hkind) (by decide)
  | typed hkind => exact absurd (heq.symm.trans hkind) (by decide)
  | inferred hkind => exact absurd (heq.symm.trans hkind) (by decide)
  | collection hkind => exact absurd (heq.symm.trans hkind) (by decide)

theorem elementType?_typed {t type : Tree} {elementType inside : List Char}
    (htype : t.childByField? "type" = some type)
    (hwritten : (type.text source).toList = elementType ++ '[' :: inside)
    (helementType : '[' ∉ elementType) :
    Constant.elementType? source t = some (String.ofList (Text.trim elementType)) := by
  rw [Constant.elementType?, htype, Option.map_some, Constant.elementTypeOf, hwritten,
    Text.cut?_mark helementType]

section Constants

attribute [local simp] Constant.ofTree

theorem ofTree_literal {t : Tree} (hkind : t.kind ∈ WrittenLiteral.kinds) :
    Constant.ofTree source t = Constant.ofLeaf source t := by
  obtain ⟨info, children⟩ := t
  rw [Constant.ofTree]
  dsimp only
  split
  case h_8 => rfl
  all_goals
    rename_i hinfo
    rw [Tree.kind, Tree.info, hinfo] at hkind
    exact absurd hkind (by decide)

/-- Parentheses and casts are seen through. -/
theorem ofTree_wrapped {t : Tree} (hkind : t.kind ∈
      ["parenthesized_expression", "cast_expression", "checked_expression"]) :
    Constant.ofTree source t =
      (t.codeChildren.getLast?.map (Constant.ofTree source)).getD
        (.nonConstant (t.trimmedText source)) := by
  obtain ⟨⟨kind, field, named, missing, start, stop⟩, children⟩ := t
  have hkinds : kind = "parenthesized_expression" ∨ kind = "cast_expression" ∨
      kind = "checked_expression" := by simpa [Tree.kind, Tree.info] using hkind
  rcases hkinds with rfl | rfl | rfl
  all_goals
    rw [Constant.ofTree, Tree.codeChildren, Tree.children, ← Constant.ofLast?_eq]
    rfl

theorem ofTree_signed {t : Tree} (hkind : t.kind = "prefix_unary_expression") :
    Constant.ofTree source t =
      ((t.codeChildren.getLast?.map (Constant.ofTree source)).bind
        (Constant.signed? (t.trimmedText source))).getD (.nonConstant (t.trimmedText source)) := by
  obtain ⟨⟨kind, field, named, missing, start, stop⟩, children⟩ := t
  obtain rfl : kind = _ := hkind
  rw [Constant.ofTree, Tree.codeChildren, Tree.children, ← Constant.ofLast?_eq]
  rfl

theorem ofTree_nameOf {t : Tree} (hkind : t.kind = "invocation_expression") :
    Constant.ofTree source t =
      (Constant.nameOf? source t).getD (.nonConstant (t.trimmedText source)) := by
  obtain ⟨⟨kind, field, named, missing, start, stop⟩, children⟩ := t
  obtain rfl : kind = _ := hkind
  rw [Constant.ofTree]
  rfl

theorem ofTree_array {t : Tree} (hkind : t.kind = "array_creation_expression" ∨
    t.kind = "implicit_array_creation_expression") : Constant.ofTree source t =
      .array (Constant.elementType? source t) (Constant.ofInitializer source t.children) := by
  obtain ⟨⟨kind, field, named, missing, start, stop⟩, children⟩ := t
  obtain rfl | rfl : kind = "array_creation_expression" ∨ kind = _ := hkind
  · rw [Constant.ofTree]
    rfl
  · rw [Constant.ofTree]
    rfl

theorem ofTree_collection {t : Tree} (hkind : t.kind = "collection_expression") :
    Constant.ofTree source t =
      .array (Constant.elementType? source t) (Constant.ofElements source t.children) := by
  obtain ⟨⟨kind, field, named, missing, start, stop⟩, children⟩ := t
  obtain rfl : kind = _ := hkind
  rw [Constant.ofTree]
  rfl

theorem ofTree_element {t : Tree} (hkind : t.kind = "collection_element") :
    Constant.ofTree source t = .nonConstant (t.trimmedText source) := by
  obtain ⟨⟨kind, field, named, missing, start, stop⟩, children⟩ := t
  obtain rfl : kind = _ := hkind
  simp [Constant.ofLeaf, Tree.kind, Tree.info]

end Constants

/-- A sign is applied to the literal behind it. -/
theorem signed?_constant {l : WrittenLiteral} {v : DataValue} (h : l.value? = some v)
    (hkind : l.kind = "integer_literal" ∨ l.kind = "real_literal") {text : String}
    (hsign : text.toList.head? = some (if l.isNegated then '-' else '+')) :
    Constant.signed? text (WrittenLiteral.bareConstant l.kind l.text) = some l.constant := by
  obtain ⟨rest, htext⟩ : ∃ rest, text.toList = (if l.isNegated then '-' else '+') :: rest :=
    ⟨_, List.eq_cons_of_mem_head? hsign⟩
  rw [WrittenLiteral.constant]
  obtain ⟨n, hn⟩ | ⟨bits, ending, hbits⟩ := l.exists_number h hkind
  · rw [hn]
    unfold Constant.signed? Text.startsWith
    rw [htext]
    cases l.isNegated <;> rfl
  · rw [hbits]
    unfold Constant.signed? Text.startsWith
    rw [htext]
    cases l.isNegated <;> rfl

theorem ofInitializer_eq {t initializer : Tree} (hinitializer :
    t.codeChildren.find? (·.kind == "initializer_expression") = some initializer) :
    Constant.ofInitializer source t.children = initializer.codeChildren.map fun t =>
      if t.kind == "expression_element" then
        (Constant.ofFirst? source t.children).getD (Constant.ofTree source t)
      else
        Constant.ofTree source t := by
  rw [Constant.ofInitializer_eq, ← Tree.codeChildren, hinitializer, Option.map_some,
    Option.getD_some, Constant.ofElements_eq, Tree.codeChildren]

theorem nameOf?_eq {t function arguments first : Tree}
    (hfunction : t.childByField? "function" = some function)
    (htext : function.text source = "nameof")
    (harguments : t.childByField? "arguments" = some arguments)
    (hfirst : arguments.codeChildren = [first]) : Constant.nameOf? source t =
      some (.nameOf (Name.simple (first.trimmedText source))) := by
  simp only [Constant.nameOf?, Option.bind_eq_bind, hfunction, Option.bind_some, htext, ne_eq,
    not_true, if_false, harguments, hfirst, List.head?_cons]

mutual

/-- The constant of a node is the constant of the argument that it writes. -/
theorem IsWritten.ofTree_eq {t : Tree} {e : WrittenArgument} (h : IsWritten source t e)
    {v : DataValue} (hv : e.value? = some v) : Constant.ofTree source t = e.constant := by
  cases h with
  | literal hkind =>
    rw [ofTree_literal hkind, WrittenLiteral.ofLeaf_eq source hkind, constant,
      WrittenLiteral.constant_eq]
  | @signed t number isNegated hkind hsign hoperand hnumber =>
    have hliteral : number.kind ∈ WrittenLiteral.kinds := by
      rcases hnumber with hnumber | hnumber <;> (rw [hnumber]; decide)
    rw [ofTree_signed hkind, hoperand, Option.map_some, Option.bind_some, ofTree_literal hliteral,
      WrittenLiteral.ofLeaf_eq source hliteral, constant]
    rw [value?] at hv
    have hsigned : Constant.signed? (t.trimmedText source) (WrittenLiteral.bareConstant number.kind
        (number.trimmedText source)) = some (WrittenLiteral.constant ⟨isNegated, number.kind,
          number.trimmedText source⟩) :=
      signed?_constant hv hnumber hsign
    rw [hsigned, Option.getD_some]
  | nameOf hkind hfunction htext harguments hfirst hname =>
    rw [ofTree_nameOf hkind, nameOf?_eq hfunction htext harguments hfirst, Option.getD_some,
      constant]
  | typed hkind htype hwritten helementType hinside hinitializer hes =>
    rw [value?, Option.map_eq_some_iff] at hv
    obtain ⟨vs, hvs, -⟩ := hv
    rw [ofTree_array (.inl hkind), elementType?_typed htype hwritten helementType,
      ofInitializer_eq hinitializer, hes.ofElements_eq hvs]
    rfl
  | inferred hkind htype hinitializer hes =>
    rw [value?, Option.map_eq_some_iff] at hv
    obtain ⟨vs, hvs, -⟩ := hv
    rw [ofTree_array (.inr hkind), Constant.elementType?, htype, ofInitializer_eq hinitializer,
      hes.ofElements_eq hvs]
    rfl
  | collection hkind htype helements hes =>
    rw [ofTree_collection hkind, Constant.elementType?, htype, Constant.ofElements_eq,
      ← Tree.codeChildren, constant, List.map_map]
    refine congrArg (Constant.array none) (List.map_congr_left fun child hchild => ?_)
    have hchildKind : child.kind = "collection_element" := by
      obtain ⟨i, hi, rfl⟩ := List.mem_iff_getElem.1 hchild
      exact (List.Forall₂.get helements hi (helements.length_eq ▸ hi)).1
    rw [if_neg (by rw [hchildKind]; decide), ofTree_element hchildKind]
    rfl

theorem AllWritten.ofElements_eq {ts : List Tree} {es : List WrittenArgument}
    (h : AllWritten source ts es) {vs : List DataValue} (hvs : values? es = some vs) :
    (ts.map fun t =>
      if t.kind == "expression_element" then
        (Constant.ofFirst? source t.children).getD (Constant.ofTree source t)
      else
        Constant.ofTree source t) = constants es := by
  cases h with
  | nil => rfl
  | cons h hrest =>
    obtain ⟨v, more, hv, hmore, -⟩ := values?_cons_eq_some_iff.1 hvs
    rw [List.map_cons, hrest.ofElements_eq hmore, if_neg, h.ofTree_eq hv, constants]
    rw [beq_iff_eq]
    exact kind_ne_expressionElement h

end

theorem AllWritten.map_ofTree_eq {ts : List Tree} {es : List WrittenArgument}
    (h : AllWritten source ts es) {vs : List DataValue} (hvs : values? es = some vs) :
    ts.map (Constant.ofTree source) = constants es := by
  induction ts generalizing es vs with
  | nil =>
    cases h
    rfl
  | cons t rest ih =>
    cases h with
    | cons h hrest =>
      obtain ⟨v, more, hv, hmore, -⟩ := values?_cons_eq_some_iff.1 hvs
      rw [List.map_cons, ih hrest hmore, h.ofTree_eq hv, constants]

end WrittenArgument

end TestLint
