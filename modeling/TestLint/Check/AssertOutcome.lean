import TestLint.Check.Basic

/-!
# Assertions with a fixed outcome

An assertion about a constant passes always or never.  One that never passes is
better written as a failure; one that always does asserts nothing.
-/

namespace TestLint.Check

def isSubject (a : Argument) : Bool :=
  a.name.all fun name => name == "condition" || name == "value"

/-- The constant is null or is not; `default` may be either. -/
def nullness? (operand : Operand) : Option Bool :=
  if operand.isNull then
    some true
  else
    match operand.constant? with
    | some .null | some .defaultValue | none => none
    | some _ => some false

/-- Whether an assertion passes that is made with this method about this
operand, where that is fixed. -/
def passes? (method : String) (operand : Operand) : Option Bool :=
  match method with
  | "IsTrue" => operand.bool?
  | "IsFalse" => operand.bool?.map (!·)
  | "IsNull" => nullness? operand
  | "IsNotNull" => (nullness? operand).map (!·)
  | _ => none

def outcome? (call : Invocation) : Option Bool := do
  let subject ← call.arguments.find? isSubject
  passes? call.method subject.operand

def withoutSubject (arguments : List Argument) : List Argument :=
  arguments.eraseP isSubject

/-- Writes the call as a failure with the arguments that are left. -/
def failFix (call : Invocation) : Fix :=
  let rest := ", ".intercalate ((withoutSubject call.arguments).map (·.text))
  ⟨"Use 'Assert.Fail'",
    [.replace call.location (call.receiver.getD "Assert" ++ ".Fail(" ++ rest ++ ")")]⟩

def callsWithOutcome (ctx : CheckedFile) (passes : Bool) : List Invocation :=
  ctx.invocations.filter fun call =>
    ctx.assertClass? call == some "Assert" && outcome? call == some passes

/-- Assertions that never pass are written as failures. -/
def preferAssertFailOverAlwaysFalseConditions : Check := fun ctx =>
  (callsWithOutcome ctx false).map fun call =>
    Finding.new call.location
        ("Use 'Assert.Fail' instead of an always-failing 'Assert." ++ call.method ++ "' assert")
      |>.withFix (failFix call)

/-- Assertions that always pass are looked at again. -/
def reviewAlwaysTrueAssertCondition : Check := fun ctx =>
  (callsWithOutcome ctx true).map fun call =>
    Finding.new call.location
      ("Review or remove the assertion as its condition is known to be always true: 'Assert." ++
        call.method ++ "'")

end TestLint.Check
