import TestLint.Proofs.Check.AssertMeaning
import TestLint.Proofs.Syntax.Nodes

/-!
# Values of conditions

What a test has at run time where an expression stands (`Environment.eval`):
names, members and calls may stand for anything, null included, while literals,
signs, casts and parentheses have a meaning.  A constant that was read off an
expression says something of these values (`Fits`), whatever stands around it:
`fits_ofTree` for the values of expressions, `fits_of_literal` for their shapes.
-/

namespace TestLint.Check

/-! ## Values of expressions -/

/-- What the expressions of a test stand for when it runs. -/
structure Environment (α : Type) where
  /-- The value of an expression that its syntax does not tell: of a name, a
  member, a call, `default`, a comparison. -/
  atom : Tree → Value α
  /-- The object that a literal is, a new array, `typeof` or `nameof`. -/
  object : Tree → α
  /-- What a cast or a sign makes of an object. -/
  convert : Tree → α → α

namespace Value

variable {α : Type}

/-- Objects are turned into others; null and truth values stay. -/
def convert (f : α → α) : Value α → Value α
  | .object a => .object (f a)
  | v => v

@[simp] theorem convert_null (f : α → α) : (Value.null : Value α).convert f = .null := rfl

@[simp] theorem convert_bool (f : α → α) (b : Bool) :
    (Value.bool b : Value α).convert f = .bool b := rfl

@[simp] theorem convert_object (f : α → α) (a : α) :
    (Value.object a).convert f = .object (f a) := rfl

@[simp] theorem convert_id (v : Value α) : v.convert id = v := by
  cases v <;> rfl

@[simp] theorem isNull_convert (f : α → α) (v : Value α) : (v.convert f).isNull = v.isNull := by
  cases v <;> rfl

end Value

/-- The kinds of expressions that give an object of their own, never null. -/
def objectKinds : List String :=
  ["integer_literal", "real_literal", "character_literal", "string_literal",
   "verbatim_string_literal", "raw_string_literal", "typeof_expression",
   "array_creation_expression", "implicit_array_creation_expression", "collection_expression"]

/-- The call is `nameof(…)`, which gives a string. -/
def isNameOf (source : List Char) (t : Tree) : Bool :=
  (t.childByField? "function").any fun function => function.text source == "nameof"

namespace Environment

variable {α : Type} (E : Environment α) (source : List Char)

mutual

/-- The value of an expression.  What stands in parentheses, behind a cast or
behind a unary operator is the last node of the code there. -/
def eval : Tree → Value α
  | .node info children =>
    let here := Tree.node info children
    if objectKinds.contains info.kind then
      .object (E.object here)
    else
      match info.kind with
      | "null_literal" => .null
      | "boolean_literal" => .bool (here.trimmedText source == "true")
      | "parenthesized_expression" | "checked_expression" =>
        (evalLast? children).getD (E.atom here)
      | "cast_expression" =>
        ((evalLast? children).map (·.convert (E.convert here))).getD (E.atom here)
      | "prefix_unary_expression" =>
        match (here.trimmedText source).toList, evalLast? children with
        | '!' :: _, some value => value.not
        | '-' :: _, some value | '+' :: _, some value => value.convert (E.convert here)
        | _, _ => E.atom here
      | "invocation_expression" =>
        if isNameOf source here then .object (E.object here) else E.atom here
      | _ => E.atom here

def evalLast? : List Tree → Option (Value α)
  | [] => none
  | child :: rest =>
    match evalLast? rest with
    | some value => some value
    | none => if child.isCode then some (eval child) else none

end

attribute [local simp] eval evalLast?

theorem evalLast?_eq (ts : List Tree) :
    E.evalLast? source ts = (ts.filter Tree.isCode).getLast?.map (E.eval source) := by
  refine Tree.lastCode?_eq ?_ (fun t rest => ?_) ts
  · simp
  · rw [evalLast?]
    cases E.evalLast? source rest <;> rfl

theorem exists_object {t : Tree} {kind : String} (hkind : t.kind = kind)
    (hmem : kind ∈ objectKinds) : ∃ a, E.eval source t = .object a := by
  obtain ⟨info, children⟩ := t
  subst hkind
  rw [eval]
  exact ⟨_, if_pos (List.contains_iff_mem.2 hmem)⟩

end Environment

/-! ## What constants say of values -/

/-- What a constant that was read off an expression says of its value. -/
def Fits (source : List Char) (t : Tree) : Constant → Prop
  | .null => ∀ (α : Type) (E : Environment α), E.eval source t = .null
  | .bool b => ∀ (α : Type) (E : Environment α), E.eval source t = .bool b
  | .enumMember _ _ => ∃ m, t.Holds m ∧ m.kind = "member_access_expression" ∧
      ∀ (α : Type) (E : Environment α), (E.eval source t).isNull = (E.atom m).isNull
  | .defaultValue | .nonConstant _ => True
  | _ => ∀ (α : Type) (E : Environment α), ∃ a, E.eval source t = .object a

/-- The expression has the value of one inside it, but for the objects that
casts and signs turn into others. -/
def Carries (source : List Char) (t inner : Tree) : Prop :=
  t.Holds inner ∧ ∀ (α : Type) (E : Environment α), ∃ f : α → α,
    E.eval source t = (E.eval source inner).convert f

variable {source : List Char} {t inner : Tree}

/-- A constant fits what carries the value of an expression that it fits. -/
theorem Carries.fits (h : Carries source t inner) {c : Constant} (hc : Fits source inner c) :
    Fits source t c := by
  obtain ⟨hholds, hvalue⟩ := h
  have hobject (hc : ∀ (α : Type) (E : Environment α), ∃ a, E.eval source inner = .object a)
      (α : Type) (E : Environment α) : ∃ a, E.eval source t = .object a := by
    obtain ⟨f, hf⟩ := hvalue α E
    obtain ⟨a, ha⟩ := hc α E
    exact ⟨f a, by rw [hf, ha, Value.convert_object]⟩
  cases c with
  | null =>
    intro α E
    obtain ⟨f, hf⟩ := hvalue α E
    rw [hf, hc α E, Value.convert_null]
  | bool b =>
    intro α E
    obtain ⟨f, hf⟩ := hvalue α E
    rw [hf, hc α E, Value.convert_bool]
  | enumMember typeName member =>
    obtain ⟨m, hm, hkind, hnull⟩ := hc
    refine ⟨m, hholds.trans hm, hkind, fun α E => ?_⟩
    obtain ⟨f, hf⟩ := hvalue α E
    rw [hf, Value.isNull_convert, hnull]
  | defaultValue => trivial
  | nonConstant text => trivial
  | _ => exact hobject hc

section Around

variable {info : NodeInfo} {children : List Tree}
  (hlast : (children.filter Tree.isCode).getLast? = some inner)

include hlast

theorem holds_lastCode : (Tree.node info children).Holds inner :=
  .of_mem (List.mem_filter.1 (List.mem_of_getLast? hlast)).1

theorem carries_of_parentheses
    (hkind : info.kind = "parenthesized_expression" ∨ info.kind = "checked_expression") :
    Carries source (.node info children) inner := by
  refine ⟨holds_lastCode hlast, fun α E => ⟨id, ?_⟩⟩
  rw [Value.convert_id, Environment.eval, E.evalLast?_eq, hlast]
  rcases hkind with hkind | hkind <;> simp only [hkind] <;> rfl

theorem carries_of_cast (hkind : info.kind = "cast_expression") :
    Carries source (.node info children) inner := by
  refine ⟨holds_lastCode hlast, fun α E => ⟨E.convert (.node info children), ?_⟩⟩
  rw [Environment.eval, E.evalLast?_eq, hlast]
  simp only [hkind]
  rfl

theorem carries_of_sign (hkind : info.kind = "prefix_unary_expression")
    (hsign : Text.startsWith ((Tree.node info children).trimmedText source) "-" = true ∨
      Text.startsWith ((Tree.node info children).trimmedText source) "+" = true) :
    Carries source (.node info children) inner := by
  refine ⟨holds_lastCode hlast, fun α E => ⟨E.convert (.node info children), ?_⟩⟩
  rw [Environment.eval, E.evalLast?_eq, hlast]
  simp only [hkind]
  rcases hsign with hsign | hsign <;>
    obtain ⟨rest, hrest⟩ := List.isPrefixOf_iff_prefix.1 hsign <;>
    rw [← hrest] <;> rfl

end Around

theorem fits_of_nameOf? {c : Constant} (hkind : t.kind = "invocation_expression")
    (h : Constant.nameOf? source t = some c) : Fits source t c := by
  simp only [Constant.nameOf?, Option.bind_eq_bind, Option.bind_eq_some_iff] at h
  obtain ⟨function, hfunction, h⟩ := h
  split at h
  case isTrue => cases h
  case isFalse hname =>
    obtain ⟨args, -, h⟩ := Option.bind_eq_some_iff.1 h
    obtain ⟨first, -, h⟩ := Option.bind_eq_some_iff.1 h
    cases h
    intro α E
    refine ⟨E.object t, ?_⟩
    obtain ⟨info, children⟩ := t
    replace hkind : info.kind = "invocation_expression" := hkind
    have hnameOf : isNameOf source (.node info children) = true := by
      rw [isNameOf, hfunction]
      exact beq_iff_eq.2 (Decidable.not_not.1 hname)
    rw [Environment.eval]
    simp only [hkind, hnameOf]
    rfl

theorem fits_ofLeaf (source : List Char) (t : Tree) : Fits source t (Constant.ofLeaf source t) := by
  obtain ⟨info, children⟩ := t
  unfold Constant.ofLeaf
  dsimp only [Tree.kind, Tree.info]
  split
  case h_1 hkind =>
    intro α E
    rw [Environment.eval]
    simp only [hkind]
    rfl
  case h_2 hkind =>
    intro α E
    rw [Environment.eval]
    simp only [hkind]
    rfl
  case h_3 hkind =>
    cases Literal.integer? _ with
    | none => trivial
    | some i => exact fun α E => E.exists_object source hkind (by decide)
  case h_4 hkind =>
    split
    · exact fun α E => E.exists_object source hkind (by decide)
    · trivial
  case h_5 hkind =>
    cases Literal.character? _ with
    | none => trivial
    | some c => exact fun α E => E.exists_object source hkind (by decide)
  case h_6 hkind => exact fun α E => E.exists_object source hkind (by decide)
  case h_7 hkind => exact fun α E => E.exists_object source hkind (by decide)
  case h_8 hkind => exact fun α E => E.exists_object source hkind (by decide)
  case h_9 hkind => split <;> exact fun α E => E.exists_object source hkind (by decide)
  case h_10 => trivial
  case h_11 hkind =>
    cases hnameOf : Constant.nameOf? source (.node info children) with
    | none => trivial
    | some c => exact fits_of_nameOf? hkind hnameOf
  case h_12 hkind =>
    split
    · refine ⟨_, .self _, hkind, fun α E => ?_⟩
      rw [Environment.eval]
      simp only [hkind]
      rfl
    · trivial
  case h_13 => trivial

/-- A sign is written in front, and the number behind it says the same of values
whichever sign it has. -/
theorem signed?_spec {text : String} {c signed : Constant}
    (h : Constant.signed? text c = some signed) :
    (Text.startsWith text "-" = true ∨ Text.startsWith text "+" = true) ∧
      (Fits source t c → Fits source t signed) := by
  unfold Constant.signed? at h
  split at h
  case isTrue hminus =>
    refine ⟨.inl hminus, ?_⟩
    split at h
    · cases h
      exact id
    · cases h
      exact id
    · cases h
  case isFalse =>
    split at h
    case isTrue hplus =>
      cases h
      exact ⟨.inr hplus, id⟩
    case isFalse => cases h

/-- The constant that is read off an expression fits it. -/
theorem fits_ofTree (source : List Char) (t : Tree) : Fits source t (Constant.ofTree source t) := by
  induction t using Tree.induction_on with
  | node info children ih =>
    let here := Tree.node info children
    have hlast {c : Constant} (h : Constant.ofLast? source children = some c) :
        ∃ inner, (children.filter Tree.isCode).getLast? = some inner ∧ Fits source inner c := by
      rw [Constant.ofLast?_eq, Option.map_eq_some_iff] at h
      obtain ⟨inner, hinner, rfl⟩ := h
      exact ⟨inner, hinner, ih inner (List.mem_filter.1 (List.mem_of_getLast? hinner)).1⟩
    have haround (hcarries : ∀ inner, (children.filter Tree.isCode).getLast? = some inner →
        Carries source here inner) (text : String) :
        Fits source here ((Constant.ofLast? source children).getD (.nonConstant text)) := by
      cases hc : Constant.ofLast? source children with
      | none => trivial
      | some c =>
        obtain ⟨inner, hinner, hfits⟩ := hlast hc
        exact (hcarries inner hinner).fits hfits
    rw [Constant.ofTree]
    dsimp only
    split
    case h_1 hkind => exact haround (fun _ h => carries_of_parentheses h (.inl hkind)) _
    case h_2 hkind => exact haround (fun _ h => carries_of_cast h hkind) _
    case h_3 hkind => exact haround (fun _ h => carries_of_parentheses h (.inr hkind)) _
    case h_4 hkind =>
      cases hsigned : (Constant.ofLast? source children).bind
          (Constant.signed? (here.trimmedText source)) with
      | none => trivial
      | some signed =>
        obtain ⟨c, hc, hsigned⟩ := Option.bind_eq_some_iff.1 hsigned
        obtain ⟨inner, hinner, hfits⟩ := hlast hc
        obtain ⟨hsign, hsame⟩ := signed?_spec hsigned
        exact (carries_of_sign hinner hkind hsign).fits (hsame hfits)
    case h_5 hkind => exact fun α E => E.exists_object source hkind (by decide)
    case h_6 hkind => exact fun α E => E.exists_object source hkind (by decide)
    case h_7 hkind => exact fun α E => E.exists_object source hkind (by decide)
    case h_8 => exact fits_ofLeaf source _

/-- An expression whose shape is a constant is fitted by this constant. -/
theorem fits_of_literal (source : List Char) (t : Tree) {c : Constant}
    (h : Operand.ofTree source t = .literal c) : Fits source t c := by
  induction t using Tree.induction_on with
  | node info children ih =>
    rw [Operand.ofTree] at h
    dsimp only at h
    split at h
    case isTrue =>
      cases h
      exact fits_ofTree source _
    case isFalse =>
      split at h
      case h_1 hkind =>
        rw [Operand.ofLast?_eq] at h
        cases hlast : (children.filter Tree.isCode).getLast? with
        | none =>
          rw [hlast] at h
          cases h
        | some inner =>
          rw [hlast] at h
          have hmem : inner ∈ children := (List.mem_filter.1 (List.mem_of_getLast? hlast)).1
          exact (carries_of_parentheses hlast (.inl hkind)).fits (ih inner hmem h)
      case h_5 =>
        split at h
        · split at h
          · cases h
          · split at h
            · cases h
              exact fits_ofTree source _
            · cases h
        · cases h
      case h_6 => split at h <;> cases h
      case h_7 => split at h <;> cases h
      case h_8 => split at h <;> cases h
      case h_10 hkind =>
        split at h
        case h_1 value hvalue =>
          cases h
          exact fits_of_nameOf? hkind hvalue
        case h_2 =>
          split at h <;> cases h
      all_goals cases h

end TestLint.Check
