import TestLint.Check.Basic

/-!
# Rewriting assertions

An assertion that spells out what another one means is written as that other
one: `IsTrue(!x)` as `IsFalse(x)`, `IsTrue(a == b)` as `AreEqual(b, a)`,
`AreEqual(null, x)` as `IsNull(x)`.  A rewriting names the new method and says
which of the arguments are replaced by which operands; the others stay, so that
the messages of the assertion keep their places.
-/

namespace TestLint.Check

/-- Another way to write a call. -/
structure Rewriting where
  /-- The method to call instead. -/
  method : String
  before : List Argument
  first : Argument
  last : Argument
  after : List Argument
  /-- What takes the place of the replaced arguments, each with its text. -/
  operands : List (Operand × String)
  deriving Inhabited

namespace Rewriting

def text (r : Rewriting) : String :=
  ", ".intercalate (r.operands.map (·.2))

def fix (r : Rewriting) (call : Invocation) : Fix :=
  ⟨"Use 'Assert." ++ r.method ++ "'",
    [.replace call.nameLocation r.method,
     .replaceSpan r.first.location r.last.location r.text]⟩

end Rewriting

/-! ## Negated conditions -/

/-- The assertion that holds where the condition of the other one does not. -/
def opposite? : String → Option String
  | "IsTrue" => some "IsFalse"
  | "IsFalse" => some "IsTrue"
  | _ => none

/-- The arguments around the first one that gives the condition. -/
def splitAtCondition? : List Argument → Option (List Argument × Argument × List Argument)
  | [] => none
  | a :: rest =>
    if a.name.all (· == "condition") then
      some ([], a, rest)
    else
      (splitAtCondition? rest).map fun (before, found, after) => (a :: before, found, after)

/-- The call without the negation of its condition. -/
def withoutNegation? (call : Invocation) : Option Rewriting := do
  let method ← opposite? call.method
  let (before, condition, after) ← splitAtCondition? call.arguments
  match condition.operand with
  | .negation operand text _ =>
    some ⟨method, before, condition, condition, after, [(operand, text)]⟩
  | _ => none

/-- Conditions of assertions are not negated. -/
def doNotNegateBooleanAssertion : Check := fun ctx =>
  (ctx.invocations.filter fun call => ctx.assertClass? call == some "Assert").filterMap fun call =>
    (withoutNegation? call).map fun r =>
      Finding.new call.location
          ("Do not negate boolean assertions, use 'Assert." ++ r.method ++
            "' instead of 'Assert." ++ call.method ++ "'")
        |>.withProperty "proper" r.method
        |>.withFix (r.fix call)

/-! ## Comparisons -/

/-- What a condition says of its operands. -/
inductive Comparison where
  /-- The operand is null, or is not if `holds` is false. -/
  | toNull (holds : Bool) (operand : Operand × String)
  /-- The operands are equal, or are not if `holds` is false. -/
  | toEach (holds : Bool) (left right : Operand × String)
  deriving Inhabited

def comparison? : Operand → Option Comparison
  | .binary operator left right leftText rightText =>
    if operator == "==" || operator == "!=" then
      let holds := operator == "=="
      if right.isNull then
        some (.toNull holds (left, leftText))
      else if left.isNull then
        some (.toNull holds (right, rightText))
      else
        some (.toEach holds (left, leftText) (right, rightText))
    else
      none
  | .isPattern operand text pattern =>
    match Text.words pattern with
    | ["null"] => some (.toNull true (operand, text))
    | ["not", "null"] => some (.toNull false (operand, text))
    | _ => none
  | _ => none

/-- The assertion that a condition has the truth value `expected`, in terms of
what it compares; the right side is taken for the expected value. -/
def Comparison.asserted (expected : Bool) : Comparison → String × List (Operand × String)
  | .toNull holds operand =>
    (if holds == expected then "IsNull" else "IsNotNull", [operand])
  | .toEach holds left right =>
    (if holds == expected then "AreEqual" else "AreNotEqual", [right, left])

def byComparison? (expected : Bool) (arguments : List Argument) : Option Rewriting := do
  match arguments with
  | [] => none
  | condition :: after =>
    let comparison ← comparison? condition.operand
    let (method, operands) := comparison.asserted expected
    some ⟨method, [], condition, condition, after, operands⟩

/-- The assertion about a value alone that says it is equal to a constant, or
that it is not if `equal` is false. -/
def unary? (equal : Bool) (constant : Operand) : Option String :=
  match equal, constant.bool? with
  | true, some true => some "IsTrue"
  | true, some false => some "IsFalse"
  | _, _ => if constant.isNull then some (if equal then "IsNull" else "IsNotNull") else none

def byConstant? (equal : Bool) (arguments : List Argument) : Option Rewriting := do
  match arguments with
  | expected :: actual :: after =>
    let method ← unary? equal expected.operand
    some ⟨method, [], expected, actual, after, [(actual.operand, actual.text)]⟩
  | _ => none

/-- The call with the assertion made for what it spells out. -/
def proper? (call : Invocation) : Option Rewriting :=
  if call.arguments.any (·.name.isSome) then
    none
  else
    match call.method with
    | "IsTrue" => byComparison? true call.arguments
    | "IsFalse" => byComparison? false call.arguments
    | "AreEqual" => byConstant? true call.arguments
    | "AreNotEqual" => byConstant? false call.arguments
    | _ => none

/-- Assertions are the ones made for what they say. -/
def useProperAssertMethods : Check := fun ctx =>
  (ctx.invocations.filter fun call => ctx.assertClass? call == some "Assert").filterMap fun call =>
    (proper? call).map fun r =>
      Finding.new call.location
          ("Use 'Assert." ++ r.method ++ "' instead of 'Assert." ++ call.method ++ "'")
        |>.withProperty "proper" r.method
        |>.withProperty "actual" call.method
        |>.withFix (r.fix call)

end TestLint.Check
