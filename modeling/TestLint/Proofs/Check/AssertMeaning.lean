import TestLint.Check.OfRule
import TestLint.Proofs.Expression.Operand

/-!
# Rewritten assertions mean what they meant

A test that is rewritten must fail where it failed before.  What an assertion
says is given here by itself: operands stand for values (`Valuation`), shapes
that assertions spell out are computed from their parts (`Valuation.eval`), and
an assertion passes or fails by the values of the operands it judges
(`judge?`).  The fixes of the three checks that write an assertion in another
way are then read back as the call they write (`Fix.WritesCall`), and that call
passes under every valuation exactly where the old one does
(`rewrite_keepsMeaning`).
-/

namespace TestLint.Check

/-! ## Values -/

/-- What an operand stands for when a test runs. -/
inductive Value (α : Type) where
  | null
  | bool (b : Bool)
  | object (a : α)

/-- What the operands of assertions stand for.  Objects are compared in any
symmetric way, by value and by identity; `atom` gives the value of an operand
that is not computed from its parts. -/
structure Valuation (α : Type) where
  atom : Operand → Value α
  equalObjects : α → α → Bool
  equalObjects_comm : ∀ a b, equalObjects a b = equalObjects b a
  same : Value α → Value α → Bool
  same_comm : ∀ v w, same v w = same w v

namespace Value

variable {α : Type}

/-- The value is null. -/
def isNull : Value α → Bool
  | .null => true
  | _ => false

/-- The value is this truth value. -/
def isBool (b : Bool) : Value α → Bool
  | .bool b' => b == b'
  | _ => false

/-- The truth value turned round; nothing else has an opposite. -/
def not : Value α → Value α
  | .bool b => .bool !b
  | v => v

theorem isBool_not (b : Bool) (v : Value α) : v.not.isBool b = v.isBool !b := by
  cases v with
  | null => rfl
  | bool b' => cases b <;> cases b' <;> rfl
  | object a => rfl

theorem isBool_bool (b b' : Bool) : (Value.bool b' : Value α).isBool b = (b' == b) := by
  cases b <;> cases b' <;> rfl

end Value

namespace Valuation

variable {α : Type} (V : Valuation α)

/-- The equality of `==` and of `AreEqual`. -/
def equal : Value α → Value α → Bool
  | .null, .null => true
  | .bool b, .bool b' => b == b'
  | .object a, .object a' => V.equalObjects a a'
  | _, _ => false

theorem equal_comm (v w : Value α) : V.equal v w = V.equal w v := by
  cases v <;> cases w <;> try rfl
  case bool.bool b b' => cases b <;> cases b' <;> rfl
  case object.object a a' => exact V.equalObjects_comm a a'

theorem equal_null (v : Value α) : V.equal .null v = v.isNull := by
  cases v <;> rfl

theorem equal_bool (b : Bool) (v : Value α) : V.equal (.bool b) v = v.isBool b := by
  cases v <;> rfl

/-- The value of an operand: literals of null and truth values stand for
themselves, negations and comparisons for what their parts give. -/
def eval : Operand → Value α
  | .literal .null => .null
  | .literal (.bool b) => .bool b
  | .negation operand _ _ => (eval operand).not
  | .binary operator left right leftText rightText =>
    if operator = "==" then .bool (V.equal (eval left) (eval right))
    else if operator = "!=" then .bool !(V.equal (eval left) (eval right))
    else V.atom (.binary operator left right leftText rightText)
  | .isPattern operand text pattern =>
    if Text.words pattern = ["null"] then .bool (eval operand).isNull
    else if Text.words pattern = ["not", "null"] then .bool !(eval operand).isNull
    else V.atom (.isPattern operand text pattern)
  | operand => V.atom operand

theorem eval_of_isNull {o : Operand} (h : o.isNull = true) : V.eval o = .null := by
  rw [Operand.isNull_iff.1 h]
  rfl

theorem eval_of_bool? {o : Operand} {b : Bool} (h : o.bool? = some b) : V.eval o = .bool b := by
  rw [Operand.bool?_eq_some_iff.1 h]
  rfl

end Valuation

/-! ## What assertions say -/

/-- The number of operands that an assertion judges; the arguments after them
are its message or its tolerance. -/
def judgedCount : String → Nat
  | "IsTrue" | "IsFalse" | "IsNull" | "IsNotNull" => 1
  | "AreEqual" | "AreNotEqual" | "AreSame" | "AreNotSame" => 2
  | _ => 0

theorem judgedCount_truth (expected : Bool) :
    judgedCount (if expected then "IsTrue" else "IsFalse") = 1 := by
  cases expected <;> rfl

theorem judgedCount_equality (equal : Bool) :
    judgedCount (if equal then "AreEqual" else "AreNotEqual") = 2 := by
  cases equal <;> rfl

/-- Whether an assertion passes for the values of its arguments; `none` for
other methods and where an operand is missing. -/
def judge? {α : Type} (V : Valuation α) : String → List (Value α) → Option Bool
  | "IsTrue", v :: _ => some (v.isBool true)
  | "IsFalse", v :: _ => some (v.isBool false)
  | "IsNull", v :: _ => some v.isNull
  | "IsNotNull", v :: _ => some !v.isNull
  | "AreEqual", v :: w :: _ => some (V.equal v w)
  | "AreNotEqual", v :: w :: _ => some !(V.equal v w)
  | "AreSame", v :: w :: _ => some (V.same v w)
  | "AreNotSame", v :: w :: _ => some !(V.same v w)
  | _, _ => none

/-- A call of an assertion as it is read: the method, and the arguments with
their shapes and their texts. -/
structure WrittenCall where
  method : String
  arguments : List (Operand × String)

namespace WrittenCall

/-- The call that stands in the source. -/
def ofInvocation (call : Invocation) : WrittenCall :=
  ⟨call.method, call.arguments.map fun a => (a.operand, a.text)⟩

/-- The arguments that the assertion does not judge. -/
def further (c : WrittenCall) : List (Operand × String) :=
  c.arguments.drop (judgedCount c.method)

/-- Whether the call passes under a valuation of its operands. -/
def passes? {α : Type} (c : WrittenCall) (V : Valuation α) : Option Bool :=
  judge? V c.method (c.arguments.map fun (operand, _) => V.eval operand)

end WrittenCall

/-! ## The call that a fix writes -/

/-- Edits that go along the arguments of a call from left to right write these
arguments: each edit replaces a run of arguments by operands with commas
between their texts, and what no edit replaces stays. -/
inductive WritesArguments : List TextEdit → List Argument → List (Operand × String) → Prop
  | nil : WritesArguments [] [] []
  | keep {edits : List TextEdit} {rest : List Argument} {new : List (Operand × String)}
      (a : Argument) (h : WritesArguments edits rest new) :
      WritesArguments edits (a :: rest) ((a.operand, a.text) :: new)
  | replace {edits : List TextEdit} {rest run : List Argument} {new : List (Operand × String)}
      {first last : Argument} (operands : List (Operand × String))
      (hfirst : run.head? = some first) (hlast : run.getLast? = some last)
      (h : WritesArguments edits rest new) :
      WritesArguments
        (.replaceSpan first.location last.location (", ".intercalate (operands.map (·.2))) ::
          edits)
        (run ++ rest) (operands ++ new)

/-- The fix writes this call in place of the old one: first the name of the
method, unless it stays, then the arguments. -/
def WritesCall (fix : Fix) (call : Invocation) (new : WrittenCall) : Prop :=
  ∃ edits, WritesArguments edits call.arguments new.arguments ∧
    (fix.edits = .replace call.nameLocation new.method :: edits ∨
      (new.method = call.method ∧ fix.edits = edits))

/-- The operand is an argument, or the part of one that a negation or a
comparison is made of, with the text that stands for it there. -/
inductive IsPart (arguments : List Argument) : Operand → String → Prop
  | argument {a : Argument} (h : a ∈ arguments) : IsPart arguments a.operand a.text
  | negated {o : Operand} {text whole : String} {loc : Location}
      (h : IsPart arguments (.negation o text loc) whole) : IsPart arguments o text
  | left {operator leftText rightText whole : String} {l r : Operand}
      (h : IsPart arguments (.binary operator l r leftText rightText) whole) :
      IsPart arguments l leftText
  | right {operator leftText rightText whole : String} {l r : Operand}
      (h : IsPart arguments (.binary operator l r leftText rightText) whole) :
      IsPart arguments r rightText
  | tested {o : Operand} {text pattern whole : String}
      (h : IsPart arguments (.isPattern o text pattern) whole) : IsPart arguments o text

/-- The fix writes the call with another assertion that judges parts of the old
arguments, passes under the same valuations and has the same further
arguments in the same order. -/
def KeepsMeaning (fix : Fix) (call : Invocation) : Prop :=
  ∃ new : WrittenCall, WritesCall fix call new ∧
    (∀ p ∈ new.arguments, IsPart call.arguments p.1 p.2) ∧
    new.further = (WrittenCall.ofInvocation call).further ∧
    ∀ (α : Type) (V : Valuation α), ∃ passes : Bool,
      (WrittenCall.ofInvocation call).passes? V = some passes ∧ new.passes? V = some passes

/-- The arguments as they stand, with their shapes and their texts. -/
abbrev kept (arguments : List Argument) : List (Operand × String) :=
  arguments.map fun a => (a.operand, a.text)

theorem writesArguments_kept (arguments : List Argument) :
    WritesArguments [] arguments (kept arguments) := by
  induction arguments with
  | nil => exact .nil
  | cons a rest ih => exact .keep a ih

theorem isPart_of_mem_kept {arguments part : List Argument} (hsub : part ⊆ arguments)
    {p : Operand × String} (hp : p ∈ kept part) : IsPart arguments p.1 p.2 := by
  obtain ⟨a, ha, rfl⟩ := List.mem_map.1 hp
  exact .argument (hsub ha)

/-- A rewriting that replaces the first arguments writes its operands and the
arguments after them. -/
theorem Rewriting.writes {r : Rewriting} {call : Invocation} (run : List Argument)
    (hargs : call.arguments = run ++ r.after) (hfirst : run.head? = some r.first)
    (hlast : run.getLast? = some r.last)
    (hparts : ∀ p ∈ r.operands, IsPart call.arguments p.1 p.2) :
    WritesCall (r.fix call) call ⟨r.method, r.operands ++ kept r.after⟩ ∧
      ∀ p ∈ r.operands ++ kept r.after, IsPart call.arguments p.1 p.2 := by
  refine ⟨?_, fun p hp => ?_⟩
  · have hwritten := WritesArguments.replace r.operands hfirst hlast (writesArguments_kept r.after)
    rw [← hargs] at hwritten
    exact ⟨_, hwritten, .inl rfl⟩
  · rcases List.mem_append.1 hp with hp | hp
    · exact hparts p hp
    · refine isPart_of_mem_kept ?_ hp
      rw [hargs]
      exact List.subset_append_right run r.after

/-- A rewriting that replaces the first arguments keeps the meaning if it
replaces what the old assertion judges by what the new one judges. -/
theorem Rewriting.keepsMeaning {r : Rewriting} {call : Invocation} (run : List Argument)
    (hargs : call.arguments = run ++ r.after) (hfirst : run.head? = some r.first)
    (hlast : run.getLast? = some r.last) (hrun : run.length = judgedCount call.method)
    (hoperands : r.operands.length = judgedCount r.method)
    (hparts : ∀ p ∈ r.operands, IsPart call.arguments p.1 p.2)
    (hpasses : ∀ (α : Type) (V : Valuation α) (further : List (Value α)), ∃ passes : Bool,
      judge? V call.method (run.map (fun a => V.eval a.operand) ++ further) = some passes ∧
        judge? V r.method (r.operands.map (fun p => V.eval p.1) ++ further) = some passes) :
    KeepsMeaning (r.fix call) call := by
  obtain ⟨hwrites, hparts⟩ := Rewriting.writes run hargs hfirst hlast hparts
  refine ⟨_, hwrites, hparts, ?_, ?_⟩
  · simp only [WrittenCall.further, WrittenCall.ofInvocation, hargs, List.map_append]
    rw [← hoperands, ← hrun, List.drop_left]
    exact (List.drop_left' (List.length_map _)).symm
  · intro α V
    obtain ⟨passes, hold, hnew⟩ := hpasses α V (r.after.map fun a => V.eval a.operand)
    refine ⟨passes, ?_, ?_⟩
    · simpa [WrittenCall.passes?, WrittenCall.ofInvocation, hargs, Function.comp_def] using hold
    · simpa [WrittenCall.passes?, Function.comp_def] using hnew

/-! ## Negated conditions -/

theorem opposite?_spec {method other : String} (h : opposite? method = some other) :
    judgedCount method = 1 ∧ judgedCount other = 1 ∧
      ∀ (α : Type) (V : Valuation α) (v : Value α) (further : List (Value α)),
        ∃ passes : Bool, judge? V method (v.not :: further) = some passes ∧
          judge? V other (v :: further) = some passes := by
  unfold opposite? at h
  split at h
  case h_1 =>
    cases h
    refine ⟨rfl, rfl, fun α V v further => ⟨v.isBool false, ?_, rfl⟩⟩
    exact congrArg some (v.isBool_not true)
  case h_2 =>
    cases h
    refine ⟨rfl, rfl, fun α V v further => ⟨v.isBool true, ?_, rfl⟩⟩
    exact congrArg some (v.isBool_not false)
  case h_3 => cases h

/-- Without named arguments the condition is the first argument. -/
theorem splitAtCondition?_of_unnamed {arguments before after : List Argument} {a : Argument}
    (hunnamed : ∀ a ∈ arguments, a.name = none)
    (h : splitAtCondition? arguments = some (before, a, after)) :
    before = [] ∧ arguments = a :: after := by
  cases arguments with
  | nil => cases h
  | cons first rest =>
    rw [splitAtCondition?, hunnamed first List.mem_cons_self] at h
    cases h
    exact ⟨rfl, rfl⟩

theorem withoutNegation?_eq_some {call : Invocation} {r : Rewriting}
    (hunnamed : ∀ a ∈ call.arguments, a.name = none) (h : withoutNegation? call = some r) :
    ∃ method condition operand text location after, opposite? call.method = some method ∧
      call.arguments = condition :: after ∧ condition.operand = .negation operand text location ∧
      IsPart call.arguments operand text ∧
      r = ⟨method, [], condition, condition, after, [(operand, text)]⟩ := by
  simp only [withoutNegation?, Option.bind_eq_bind, Option.bind_eq_some_iff] at h
  obtain ⟨method, hmethod, ⟨before, condition, after⟩, hsplit, h⟩ := h
  obtain ⟨rfl, hargs⟩ := splitAtCondition?_of_unnamed hunnamed hsplit
  dsimp only at h
  split at h
  case h_2 => cases h
  case h_1 operand text location hcondition =>
    cases h
    have hpart : IsPart call.arguments condition.operand condition.text :=
      .argument (hargs ▸ List.mem_cons_self)
    rw [hcondition] at hpart
    exact ⟨method, condition, operand, text, location, after, hmethod, hargs, hcondition,
      .negated hpart, rfl⟩

theorem withoutNegation?_keepsMeaning {call : Invocation} {r : Rewriting}
    (hunnamed : ∀ a ∈ call.arguments, a.name = none) (h : withoutNegation? call = some r) :
    KeepsMeaning (r.fix call) call := by
  obtain ⟨method, condition, operand, text, location, after, hmethod, hargs, hcondition, hpart,
    rfl⟩ := withoutNegation?_eq_some hunnamed h
  obtain ⟨hold, hnew, hjudge⟩ := opposite?_spec hmethod
  refine Rewriting.keepsMeaning [condition] hargs rfl rfl hold.symm hnew.symm ?_ ?_
  · intro p hp
    rw [List.mem_singleton.1 hp]
    exact hpart
  · intro α V further
    obtain ⟨passes, hold, hnew⟩ := hjudge α V (V.eval operand) further
    refine ⟨passes, ?_, hnew⟩
    rw [List.map_singleton, hcondition]
    exact hold

/-! ## Comparisons -/

namespace Comparison

/-- The comparison is true of the values of its operands. -/
def holdsFor {α : Type} (V : Valuation α) : Comparison → Bool
  | .toNull holds operand => (V.eval operand.1).isNull == holds
  | .toEach holds left right => V.equal (V.eval left.1) (V.eval right.1) == holds

/-- The operands that are compared, each with its text. -/
def operands : Comparison → List (Operand × String)
  | .toNull _ operand => [operand]
  | .toEach _ left right => [left, right]

end Comparison

/-- The value of a comparison, once both sides are compared, whichever side is
the literal of null. -/
theorem comparison?_binary {operator leftText rightText : String} {left right : Operand}
    {c : Comparison} (h : comparison? (.binary operator left right leftText rightText) = some c) :
    (∀ p ∈ c.operands, p = (left, leftText) ∨ p = (right, rightText)) ∧
      ∀ (α : Type) (V : Valuation α),
        V.eval (.binary operator left right leftText rightText) = .bool (c.holdsFor V) := by
  simp only [comparison?, Bool.or_eq_true, beq_iff_eq] at h
  split at h
  case isFalse => cases h
  case isTrue hoperator =>
    have heval : ∀ (α : Type) (V : Valuation α),
        V.eval (.binary operator left right leftText rightText) =
          .bool (V.equal (V.eval left) (V.eval right) == (operator == "==")) := by
      intro α V
      rcases hoperator with rfl | rfl <;>
        cases hequal : V.equal (V.eval left) (V.eval right) <;>
          simp [Valuation.eval, hequal]
    split at h
    case isTrue hright =>
      cases h
      refine ⟨fun p hp => .inl (List.mem_singleton.1 hp), fun α V => ?_⟩
      rw [heval, V.eval_of_isNull hright, V.equal_comm, V.equal_null]
      rfl
    case isFalse =>
      split at h
      case isTrue hleft =>
        cases h
        refine ⟨fun p hp => .inr (List.mem_singleton.1 hp), fun α V => ?_⟩
        rw [heval, V.eval_of_isNull hleft, V.equal_null]
        rfl
      case isFalse =>
        cases h
        refine ⟨fun p hp => ?_, fun α V => heval α V⟩
        simpa [Comparison.operands] using hp

theorem comparison?_isPattern {o : Operand} {text pattern : String} {c : Comparison}
    (h : comparison? (.isPattern o text pattern) = some c) :
    (∀ p ∈ c.operands, p = (o, text)) ∧
      ∀ (α : Type) (V : Valuation α),
        V.eval (.isPattern o text pattern) = .bool (c.holdsFor V) := by
  simp only [comparison?] at h
  split at h
  case h_1 hwords =>
    cases h
    refine ⟨fun p hp => List.mem_singleton.1 hp, fun α V => ?_⟩
    simp [Valuation.eval, hwords, Comparison.holdsFor]
  case h_2 hwords =>
    cases h
    refine ⟨fun p hp => List.mem_singleton.1 hp, fun α V => ?_⟩
    simp [Valuation.eval, hwords, Comparison.holdsFor]
  case h_3 => cases h

/-- A condition that is a comparison has the truth value of the comparison, and
the comparison is of parts of the condition. -/
theorem comparison?_spec {arguments : List Argument} {o : Operand} {text : String}
    {c : Comparison} (hpart : IsPart arguments o text) (h : comparison? o = some c) :
    (∀ p ∈ c.operands, IsPart arguments p.1 p.2) ∧
      ∀ (α : Type) (V : Valuation α), V.eval o = .bool (c.holdsFor V) := by
  cases o with
  | binary operator left right leftText rightText =>
    obtain ⟨hoperands, heval⟩ := comparison?_binary h
    refine ⟨fun p hp => ?_, heval⟩
    rcases hoperands p hp with rfl | rfl
    · exact .left hpart
    · exact .right hpart
  | isPattern o text pattern =>
    obtain ⟨hoperands, heval⟩ := comparison?_isPattern h
    refine ⟨fun p hp => ?_, heval⟩
    rw [hoperands p hp]
    exact .tested hpart
  | _ => cases h

/-- The assertion made of a comparison judges its operands only, and passes
where the comparison has the truth value that was expected of it. -/
theorem Comparison.asserted_spec (expected : Bool) (c : Comparison) :
    let (method, operands) := c.asserted expected
    operands.length = judgedCount method ∧ (∀ p ∈ operands, p ∈ c.operands) ∧
      ∀ (α : Type) (V : Valuation α) (further : List (Value α)),
        judge? V method (operands.map (fun p => V.eval p.1) ++ further) =
          some ((Value.bool (c.holdsFor V) : Value α).isBool expected) := by
  cases c with
  | toNull holds operand =>
    refine ⟨?_, fun p hp => hp, fun α V further => ?_⟩
    · cases holds <;> cases expected <;> rfl
    · simp only [holdsFor, Value.isBool_bool]
      cases hnull : (V.eval operand.1).isNull <;> cases holds <;> cases expected <;>
        simp [judge?, hnull]
  | toEach holds left right =>
    refine ⟨?_, fun p hp => ?_, fun α V further => ?_⟩
    · cases holds <;> cases expected <;> rfl
    · exact List.mem_reverse.1 hp
    · simp only [holdsFor, Value.isBool_bool, V.equal_comm (V.eval left.1)]
      cases hequal : V.equal (V.eval right.1) (V.eval left.1) <;> cases holds <;>
        cases expected <;> simp [judge?, hequal]

theorem byComparison?_eq_some {expected : Bool} {arguments : List Argument} {r : Rewriting}
    (h : byComparison? expected arguments = some r) :
    ∃ condition after c, arguments = condition :: after ∧
      comparison? condition.operand = some c ∧
      r = ⟨(c.asserted expected).1, [], condition, condition, after, (c.asserted expected).2⟩ := by
  cases arguments with
  | nil => cases h
  | cons condition after =>
    simp only [byComparison?, Option.bind_eq_bind, Option.bind_eq_some_iff] at h
    obtain ⟨c, hc, h⟩ := h
    cases h
    exact ⟨condition, after, c, rfl, hc, rfl⟩

/-- The assertion that is made of a comparison is about parts of the old one. -/
theorem Comparison.asserted_isPart {arguments : List Argument} {o : Operand} {text : String}
    {c : Comparison} (hpart : IsPart arguments o text) (h : comparison? o = some c)
    (expected : Bool) : ∀ p ∈ (c.asserted expected).2, IsPart arguments p.1 p.2 := by
  obtain ⟨hparts, -⟩ := comparison?_spec hpart h
  obtain ⟨-, hoperands, -⟩ := c.asserted_spec expected
  exact fun p hp => hparts p (hoperands p hp)

theorem byComparison?_keepsMeaning {call : Invocation} {r : Rewriting} (expected : Bool)
    (hmethod : call.method = if expected then "IsTrue" else "IsFalse")
    (h : byComparison? expected call.arguments = some r) : KeepsMeaning (r.fix call) call := by
  obtain ⟨condition, after, c, hargs, hc, rfl⟩ := byComparison?_eq_some h
  have hpart : IsPart call.arguments condition.operand condition.text :=
    .argument (hargs ▸ List.mem_cons_self)
  obtain ⟨-, heval⟩ := comparison?_spec hpart hc
  obtain ⟨hcount, -, hjudge⟩ := c.asserted_spec expected
  refine Rewriting.keepsMeaning [condition] hargs rfl rfl ?_ hcount
    (Comparison.asserted_isPart hpart hc expected) ?_
  · rw [hmethod, judgedCount_truth]
    rfl
  · intro α V further
    refine ⟨_, ?_, hjudge α V further⟩
    rw [List.map_singleton, heval, hmethod]
    cases expected <;> rfl

/-! ## Constants -/

theorem unary?_spec {equal : Bool} {constant : Operand} {method : String}
    (h : unary? equal constant = some method) :
    judgedCount method = 1 ∧
      ∀ (α : Type) (V : Valuation α) (v : Value α) (further : List (Value α)),
        judge? V method (v :: further) = some (V.equal (V.eval constant) v == equal) := by
  unfold unary? at h
  split at h
  case h_1 hbool =>
    cases h
    refine ⟨rfl, fun α V v further => ?_⟩
    rw [V.eval_of_bool? hbool, V.equal_bool]
    simp [judge?]
  case h_2 hbool =>
    cases h
    refine ⟨rfl, fun α V v further => ?_⟩
    rw [V.eval_of_bool? hbool, V.equal_bool]
    simp [judge?]
  case h_3 =>
    split at h
    case isFalse => cases h
    case isTrue hnull =>
      cases h
      refine ⟨by split <;> rfl, fun α V v further => ?_⟩
      rw [V.eval_of_isNull hnull, V.equal_null]
      split
      case isTrue hequal => simp [judge?, hequal]
      case isFalse hequal => simp [judge?, hequal]

theorem byConstant?_eq_some {equal : Bool} {arguments : List Argument} {r : Rewriting}
    (h : byConstant? equal arguments = some r) :
    ∃ expected actual after method, arguments = expected :: actual :: after ∧
      unary? equal expected.operand = some method ∧
      r = ⟨method, [], expected, actual, after, [(actual.operand, actual.text)]⟩ := by
  match arguments with
  | [] => cases h
  | [_] => cases h
  | expected :: actual :: after =>
    simp only [byConstant?, Option.bind_eq_bind, Option.bind_eq_some_iff] at h
    obtain ⟨method, hunary, h⟩ := h
    cases h
    exact ⟨expected, actual, after, method, rfl, hunary, rfl⟩

theorem byConstant?_keepsMeaning {call : Invocation} {r : Rewriting} (equal : Bool)
    (hmethod : call.method = if equal then "AreEqual" else "AreNotEqual")
    (h : byConstant? equal call.arguments = some r) : KeepsMeaning (r.fix call) call := by
  obtain ⟨expected, actual, after, method, hargs, hunary, rfl⟩ := byConstant?_eq_some h
  obtain ⟨hcount, hjudge⟩ := unary?_spec hunary
  refine Rewriting.keepsMeaning [expected, actual] hargs rfl rfl ?_ hcount.symm ?_ ?_
  · rw [hmethod, judgedCount_equality]
    rfl
  · intro p hp
    rw [List.mem_singleton.1 hp]
    refine .argument ?_
    rw [hargs]
    exact List.mem_cons_of_mem _ List.mem_cons_self
  · intro α V further
    refine ⟨_, ?_, hjudge α V (V.eval actual.operand) further⟩
    rw [hmethod]
    cases equal <;> simp [judge?]

theorem proper?_keepsMeaning {call : Invocation} {r : Rewriting} (h : proper? call = some r) :
    KeepsMeaning (r.fix call) call := by
  unfold proper? at h
  split at h
  case isTrue => cases h
  case isFalse =>
    split at h
    case h_1 hmethod => exact byComparison?_keepsMeaning true hmethod h
    case h_2 hmethod => exact byComparison?_keepsMeaning false hmethod h
    case h_3 hmethod => exact byConstant?_keepsMeaning true hmethod h
    case h_4 hmethod => exact byConstant?_keepsMeaning false hmethod h
    case h_5 => cases h

/-! ## Swapped arguments -/

theorem equalityAsserts_spec {method : String} (h : method ∈ equalityAsserts) :
    judgedCount method = 2 ∧
      ∀ (α : Type) (V : Valuation α) (v w : Value α) (further : List (Value α)),
        ∃ passes : Bool, judge? V method (v :: w :: further) = some passes ∧
          judge? V method (w :: v :: further) = some passes := by
  simp only [equalityAsserts, List.mem_cons, List.not_mem_nil, or_false] at h
  rcases h with rfl | rfl | rfl | rfl
  · exact ⟨rfl, fun α V v w further => ⟨_, rfl, congrArg some (V.equal_comm w v)⟩⟩
  · exact ⟨rfl, fun α V v w further => ⟨_, rfl, congrArg (some !·) (V.equal_comm w v)⟩⟩
  · exact ⟨rfl, fun α V v w further => ⟨_, rfl, congrArg some (V.same_comm w v)⟩⟩
  · exact ⟨rfl, fun α V v w further => ⟨_, rfl, congrArg (some !·) (V.same_comm w v)⟩⟩

/-- Two arguments that are reported as swapped are the first two of an assertion
of equality and look so. -/
theorem swapped?_spec {call : Invocation} {expected actual : Argument}
    (h : swapped? call = some (expected, actual)) :
    call.method ∈ equalityAsserts ∧ looksSwapped expected actual = true ∧
      ∃ after, call.arguments = expected :: actual :: after := by
  unfold swapped? at h
  split at h
  case isTrue => cases h
  case isFalse hcall =>
    simp only [Bool.or_eq_true, not_or, Bool.not_eq_true', Bool.not_eq_false,
      List.contains_iff_mem] at hcall
    split at h
    case h_2 => cases h
    case h_1 first second after hargs =>
      split at h
      case isFalse => cases h
      case isTrue hswapped =>
        cases h
        exact ⟨hcall.1, hswapped, after, hargs⟩

theorem swapFix_writes {call : Invocation} {expected actual : Argument} {after : List Argument}
    (hargs : call.arguments = expected :: actual :: after) :
    WritesCall (swapFix expected actual) call ⟨call.method, kept (actual :: expected :: after)⟩ ∧
      ∀ p ∈ kept (actual :: expected :: after), IsPart call.arguments p.1 p.2 := by
  refine ⟨?_, fun p hp => isPart_of_mem_kept ?_ hp⟩
  · have hactual : WritesArguments _ ([actual] ++ after) (kept [expected] ++ kept after) :=
      .replace (kept [expected]) rfl rfl (writesArguments_kept after)
    have hboth : WritesArguments _ ([expected] ++ _) (kept [actual] ++ _) :=
      .replace (kept [actual]) rfl rfl hactual
    exact ⟨_, hargs ▸ hboth, .inr ⟨rfl, rfl⟩⟩
  · rw [hargs]
    exact (List.Perm.swap expected actual after).subset

theorem swapped?_keepsMeaning {call : Invocation} {expected actual : Argument}
    (h : swapped? call = some (expected, actual)) :
    KeepsMeaning (swapFix expected actual) call := by
  obtain ⟨hmethod, -, after, hargs⟩ := swapped?_spec h
  obtain ⟨hcount, hjudge⟩ := equalityAsserts_spec hmethod
  obtain ⟨hwrites, hparts⟩ := swapFix_writes hargs
  refine ⟨_, hwrites, hparts, ?_, ?_⟩
  · simp [WrittenCall.further, WrittenCall.ofInvocation, hargs, hcount]
  · intro α V
    obtain ⟨passes, hold, hnew⟩ := hjudge α V (V.eval expected.operand) (V.eval actual.operand)
      (after.map fun a => V.eval a.operand)
    refine ⟨passes, ?_, ?_⟩
    · simpa [WrittenCall.passes?, WrittenCall.ofInvocation, hargs, Function.comp_def] using hold
    · simpa [WrittenCall.passes?, Function.comp_def] using hnew

/-! ## The checks -/

/-- What a check of the calls on `Assert` finds, it finds at such a call. -/
theorem exists_call_of_mem {ctx : CheckedFile} {β : Type} {read? : Invocation → Option β}
    {report : Invocation → β → Finding} {finding : Finding}
    (h : finding ∈ (ctx.invocations.filter fun call =>
      ctx.assertClass? call == some "Assert").filterMap fun call =>
        (read? call).map (report call)) :
    ∃ call ∈ ctx.invocations, ctx.assertClass? call = some "Assert" ∧
      ∃ r, read? call = some r ∧ report call r = finding := by
  obtain ⟨call, hcall, hreport⟩ := List.mem_filterMap.1 h
  obtain ⟨hmem, hclass⟩ := List.mem_filter.1 hcall
  obtain ⟨r, hread, hfinding⟩ := Option.map_eq_some_iff.1 hreport
  exact ⟨call, hmem, beq_iff_eq.1 hclass, r, hread, hfinding⟩

/-- Each of the three checks that write an assertion in another way reports a
call on `Assert` with a fix, and the fix keeps the meaning of the call if none
of its arguments is named. -/
theorem rewrite_keepsMeaning {ctx : CheckedFile} {rule : Rule} {finding : Finding}
    (hrule : rule ∈ [Rule.assertionArgsShouldBePassedInCorrectOrder,
      .doNotNegateBooleanAssertion, .useProperAssertMethods])
    (hfinding : finding ∈ rule.check ctx) :
    ∃ call ∈ ctx.invocations, ctx.assertClass? call = some "Assert" ∧
      finding.location = call.location ∧ ∃ fix, finding.fix = some fix ∧
        ((∀ a ∈ call.arguments, a.name = none) → KeepsMeaning fix call) := by
  simp only [List.mem_cons, List.not_mem_nil, or_false] at hrule
  rcases hrule with rfl | rfl | rfl
  · obtain ⟨call, hcall, hclass, ⟨expected, actual⟩, hswapped, rfl⟩ := exists_call_of_mem hfinding
    exact ⟨call, hcall, hclass, rfl, _, rfl, fun _ => swapped?_keepsMeaning hswapped⟩
  · obtain ⟨call, hcall, hclass, r, hr, rfl⟩ := exists_call_of_mem hfinding
    refine ⟨call, hcall, hclass, rfl, _, rfl, fun hunnamed => ?_⟩
    exact withoutNegation?_keepsMeaning hunnamed hr
  · obtain ⟨call, hcall, hclass, r, hr, rfl⟩ := exists_call_of_mem hfinding
    exact ⟨call, hcall, hclass, rfl, _, rfl, fun _ => proper?_keepsMeaning hr⟩

/-! ## A negated condition -/

/-- A class with one method, which asserts a negated condition. -/
def negatedSource : String :=
  "class T\x7bvoid M()\x7bAssert.IsTrue(!\u00e9);\x7d\x7d"

/-- The tree of the class. -/
def negatedTree : Tree :=
  .node ⟨"compilation_unit", none, true, false, 0, 38⟩
    [.node ⟨"class_declaration", none, true, false, 0, 38⟩
      [.node ⟨"class", none, false, false, 0, 5⟩ [],
       .node ⟨"identifier", some "name", true, false, 6, 7⟩ [],
       .node ⟨"declaration_list", some "body", true, false, 7, 38⟩
        [.node ⟨"method_declaration", none, true, false, 8, 37⟩
          [.node ⟨"predefined_type", some "returns", true, false, 8, 12⟩ [],
           .node ⟨"identifier", some "name", true, false, 13, 14⟩ [],
           .node ⟨"parameter_list", some "parameters", true, false, 14, 16⟩ [],
           .node ⟨"block", some "body", true, false, 16, 37⟩
            [.node ⟨"expression_statement", none, true, false, 17, 36⟩
              [.node ⟨"invocation_expression", none, true, false, 17, 35⟩
                [.node ⟨"member_access_expression", some "function", true, false, 17, 30⟩
                  [.node ⟨"identifier", some "expression", true, false, 17, 23⟩ [],
                   .node ⟨"identifier", some "name", true, false, 24, 30⟩ []],
                 .node ⟨"argument_list", some "arguments", true, false, 30, 35⟩
                  [.node ⟨"argument", none, true, false, 31, 34⟩
                    [.node ⟨"prefix_unary_expression", none, true, false, 31, 34⟩
                      [.node ⟨"identifier", none, true, false, 32, 34⟩ []]],
                   .node ⟨")", none, false, false, 34, 35⟩ []]]]]]]]]

/-- The class as the one file of a compilation that refers to the framework. -/
def negatedContext : CheckedFile :=
  let parse : Parser := fun _ => negatedTree
  let path : Path := ⟨"T.cs"⟩
  ⟨.ofSources parse [(path, negatedSource)] .empty, ⟨true⟩, .read parse 0 path negatedSource⟩

/-- What is found in the class. -/
def negatedFinding : Finding :=
  Finding.new ⟨1, 18, some 1, some 36, none⟩
      "Do not negate boolean assertions, use 'Assert.IsFalse' instead of 'Assert.IsTrue'"
    |>.withProperty "proper" "IsFalse"
    |>.withFix ⟨"Use 'Assert.IsFalse'", [⟨1, 25, 1, 31, "IsFalse"⟩, ⟨1, 32, 1, 35, "\u00e9"⟩]⟩

theorem rewrite_keepsMeaning_negated :
    negatedFinding ∈ Rule.doNotNegateBooleanAssertion.check negatedContext ∧
      ∃ call fix, negatedFinding.fix = some fix ∧ KeepsMeaning fix call := by
  have hfinding : negatedFinding ∈ Rule.doNotNegateBooleanAssertion.check negatedContext := by
    decide +kernel
  have hunnamed : ∀ call ∈ negatedContext.invocations, ∀ a ∈ call.arguments, a.name = none := by
    decide +kernel
  obtain ⟨call, hcall, -, -, fix, hfix, hkeeps⟩ := rewrite_keepsMeaning (by simp) hfinding
  exact ⟨hfinding, call, fix, hfix, hkeeps (hunnamed call hcall)⟩

end TestLint.Check
