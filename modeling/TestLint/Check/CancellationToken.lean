import TestLint.Check.Basic

/-!
# Passing on cancellation

A test that can reach its context passes the context's token to the calls that
take one, so that they end when the run is cancelled.
-/

namespace TestLint.Check

/-- The methods of the platform that take a token as one argument more. -/
def cancellableMethods : List String :=
  ["GetAsync", "PostAsync", "PutAsync", "PatchAsync", "DeleteAsync", "SendAsync",
   "GetStringAsync", "GetStreamAsync", "GetByteArrayAsync", "ReadAsync", "WriteAsync",
   "ReadLineAsync", "ReadToEndAsync", "ReadAllTextAsync", "WriteAllTextAsync",
   "ReadAllBytesAsync", "WriteAllBytesAsync", "ReadAllLinesAsync", "WriteAllLinesAsync",
   "AppendAllTextAsync", "CopyToAsync", "FlushAsync", "ConnectAsync", "WaitAsync"]

def tokenType : String := "CancellationToken"

/-- The name of the member of one part of a type that holds the context: a
property, else a field, of objects. -/
def contextMember? (t : TypeDeclaration) : Option String :=
  let property := t.properties.find? fun p =>
    !p.modifiers.has "static" && Framework.isTestContext p.typeName
  let field := t.fields.find? fun f =>
    !f.modifiers.has "static" && Framework.isTestContext f.typeName
  property.map (·.name) <|> field.map (·.name)

/-- The expression for the context inside a method: a parameter, or else a
member of the class or of a type it derives from. -/
def contextExpression? (ctx : CheckedFile) (t : TypeDeclaration) (m : Method) : Option String :=
  match m.parameters.find? fun p => Framework.isTestContext p.typeName with
  | some p => some p.name
  | none =>
    if m.isStatic then
      none
    else
      (ctx.parts t ++ ctx.compilation.baseTypes t).findSome? contextMember?

/-- The call is given a token, or something that is named like one. -/
def passesToken (call : Invocation) : Bool :=
  call.arguments.any fun a =>
    a.name == some "cancellationToken" || Text.contains (Text.lower a.text) "token"

def isTokenType (written : String) : Bool :=
  let text := Text.dropEndWhile (· == '?') (Text.trim written.toList)
  Name.simpleChars text == tokenType.toList

/-- The method takes one token beside `count` other arguments. -/
def takesTokenBeside (count : Nat) (m : Method) : Bool :=
  let tokens := m.parameters.countP fun p => isTokenType p.typeName
  tokens == 1 && m.parameters.length - tokens == count

/-- The call would take a token as one argument more. -/
def isCancellable (ctx : CheckedFile) (call : Invocation) : Bool :=
  (call.method == "Delay" && call.receiver.map Name.simple == some "Task") ||
  cancellableMethods.contains call.method ||
  ctx.compilation.types.any fun t =>
    (t.methodsNamed call.method).any (takesTokenBeside call.arguments.length)

/-- Writes the token after the last argument. -/
def tokenFix? (call : Invocation) (context : String) : Option Fix := do
  let line ← call.argumentsLocation.endLine
  let column ← call.argumentsLocation.endColumn
  if column = 0 then none
  let separator := if call.arguments.isEmpty then "" else ", "
  let expression := context ++ "." ++ tokenType
  some ⟨"Pass '" ++ expression ++ "'",
    [.insert line (column - 1) (separator ++ expression)]⟩

/-- Calls that can be cancelled are given the token of the context. -/
def flowTestContextCancellationToken : Check := fun ctx =>
  ctx.types.flatMap fun t =>
    (t.methods.filter fun m => ctx.isTestMethod m || ctx.isFixtureMethod m).flatMap fun m =>
      match contextExpression? ctx t m with
      | none => []
      | some context =>
        (m.invocations.filter fun call => !passesToken call && isCancellable ctx call).map
          fun call =>
            let finding := Finding.new call.location
              ("Pass '" ++ context ++ "." ++ tokenType ++ "' to '" ++ call.method ++
                "' so the call observes test cancellation")
            match tokenFix? call context with
            | some fix => finding.withFix fix
            | none => finding

end TestLint.Check
