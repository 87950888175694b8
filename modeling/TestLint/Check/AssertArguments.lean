import TestLint.Check.Basic

/-!
# The arguments of assertions

Assertions of equality take the expected value first, and no assertion should
look at a value through a receiver that may be null.
-/

namespace TestLint.Check

/-- The assertions that take an expected and an actual value. -/
def equalityAsserts : List String :=
  ["AreEqual", "AreNotEqual", "AreSame", "AreNotSame"]

/-- The argument refers to something whose name begins with a word, letter case aside. -/
def isNamed (word : String) (a : Argument) : Bool :=
  a.operand.referencedName?.any fun name => Text.startsWith (Text.lower name) word

/-- The two arguments look as if each should be where the other is: only the
second is a constant, or neither is and a name says so. -/
def looksSwapped (expected actual : Argument) : Bool :=
  if expected.operand.isConstant then
    false
  else
    actual.operand.isConstant ||
      (isNamed "expected" actual && !isNamed "expected" expected) ||
      (isNamed "actual" expected && !isNamed "actual" actual)

def swapped? (call : Invocation) : Option (Argument × Argument) :=
  if !equalityAsserts.contains call.method || call.arguments.any (·.name.isSome) then
    none
  else
    match call.arguments with
    | expected :: actual :: _ =>
      if looksSwapped expected actual then some (expected, actual) else none
    | _ => none

/-- Writes each of two arguments in the place of the other. -/
def swapFix (expected actual : Argument) : Fix :=
  ⟨"Swap expected and actual arguments",
    [.replace expected.location actual.text, .replace actual.location expected.text]⟩

/-- The expected value comes before the actual one. -/
def assertionArgsShouldBePassedInCorrectOrder : Check := fun ctx =>
  (ctx.invocations.filter fun call => ctx.assertClass? call == some "Assert").filterMap fun call =>
    (swapped? call).map fun (expected, actual) =>
      Finding.new call.location
          ("Assertion arguments should be passed in the correct order: 'Assert." ++
            call.method ++ "(expected, actual)'")
        |>.withFix (swapFix expected actual)

/-- The methods of assertion classes that only take messages. -/
def messageOnlyAsserts : List String :=
  ["Fail", "Inconclusive"]

/-- The first two arguments of an assertion are not read through a conditional
access; messages may be. -/
def assertionArgsShouldAvoidConditionalAccess : Check := fun ctx =>
  ctx.invocations.flatMap fun call =>
    match ctx.assertClass? call with
    | none => []
    | some name =>
      if messageOnlyAsserts.contains call.method then
        []
      else
        ((call.positional.take 2).filter (·.operand.hasConditionalAccess)).map fun a =>
          Finding.new a.location
              ("Prefer asserting the receiver is not null over conditional access in '" ++
                name ++ "." ++ call.method ++ "'")
            |>.withSuggestion
              "Add 'Assert.IsNotNull' on the receiver and use '.' instead of '?.'"

/-- No assertion is made where its failure is not observed. -/
def avoidUsingAssertsInAsyncVoidContext : Check := fun ctx =>
  ctx.methods.flatMap fun m =>
    (m.invocations.filter fun call =>
        (m.isAsyncVoid || call.inAsyncVoidLocal) && (ctx.assertClass? call).isSome).map
      fun call =>
        Finding.new call.location
            ("Do not assert inside 'async void' contexts ('" ++ m.name ++ "')")
          |>.withSuggestion "Return 'Task' so failures are observed by the test runner"

end TestLint.Check
