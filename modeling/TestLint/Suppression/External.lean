import TestLint.Check.Basic
import TestLint.Json.Codec

/-!
# Diagnostics of other tools

Other tools report things that are right for test code: underscores in the
names of tests, context parameters that are not used.  Such a diagnostic is
suppressed where the tests explain it.
-/

namespace TestLint

/-- A diagnostic that another tool reports. -/
structure ExternalDiagnostic where
  id : String
  path : Path
  line : Nat
  column : Nat
  message : Option String
  deriving DecidableEq, Repr, Inhabited

namespace ExternalDiagnostic

def toJson (d : ExternalDiagnostic) : Json :=
  .object <|
    [("id", .string d.id), ("path", .string d.path.text), ("line", .ofNat d.line),
     ("column", .ofNat d.column)] ++
    (d.message.map fun text => ("message", .string text)).toList

def ofJson? (value : Json) : Option ExternalDiagnostic := do
  let v ← value.record? 4 ["id", "path", "line", "column", "message"]
  let id ← v.required "id" Json.text?
  let path ← v.required "path" Json.text?
  let line ← v.required "line" Json.word?
  let column ← v.required "column" Json.word?
  let message ← v.optional "message" Json.text?
  some ⟨id, ⟨path⟩, line, column, message⟩

def readAll? (json : Json.Codec) (text : String) : Option (List ExternalDiagnostic) :=
  json.readList? ofJson? text

end ExternalDiagnostic

/-- A reason why a diagnostic of another tool does not apply. -/
inductive Suppressor where
  | underscoreInTestMethodName
  | asyncSuffixForTestMethod
  | nonNullableTestContextProperty
  | unusedTestContextParameter
  deriving DecidableEq, Repr, Inhabited

namespace Suppressor

def all : List Suppressor :=
  [.underscoreInTestMethodName, .asyncSuffixForTestMethod, .nonNullableTestContextProperty,
   .unusedTestContextParameter]

def name : Suppressor → String
  | .underscoreInTestMethodName => "underscore-in-test-method-name"
  | .asyncSuffixForTestMethod => "async-suffix-for-test-method"
  | .nonNullableTestContextProperty => "non-nullable-test-context-property"
  | .unusedTestContextParameter => "unused-test-context-parameter"

/-- The id of the diagnostics that it suppresses. -/
def suppressedId : Suppressor → String
  | .underscoreInTestMethodName => "CA1707"
  | .asyncSuffixForTestMethod => "VSTHRD200"
  | .nonNullableTestContextProperty => "CS8618"
  | .unusedTestContextParameter => "IDE0060"

/-- Why the diagnostics do not apply. -/
def justification : Suppressor → String
  | .underscoreInTestMethodName =>
    "Test method names commonly use underscores to separate scenario and expectation"
  | .asyncSuffixForTestMethod =>
    "Test and fixture methods are invoked by the framework, not called by name"
  | .nonNullableTestContextProperty =>
    "The 'TestContext' property is set by the framework before any test runs"
  | .unusedTestContextParameter =>
    "The 'TestContext' parameter is required by the fixture method signature"

/-- The suppressor of diagnostics with an id, letter case and blanks around it aside. -/
def ofId? (id : String) : Option Suppressor :=
  all.find? fun s => Text.equalIgnoringCase s.suppressedId (Text.trimmed id)

/-- The position lies in the place; a place without an end is one column wide. -/
def covers (loc : Location) (line column : Nat) : Bool :=
  let stopLine := loc.endLine.getD loc.line
  let stopColumn := loc.endColumn.getD (loc.column + 1)
  (loc.line < line || (loc.line == line && loc.column ≤ column)) &&
    (line < stopLine || (line == stopLine && column < stopColumn))

/-- The suppressor explains a diagnostic at this position, in this type. -/
def explains (ctx : CheckedFile) (line column : Nat) (t : TypeDeclaration) : Suppressor → Bool
  | .underscoreInTestMethodName =>
    t.methods.any fun m => covers m.nameLocation line column && ctx.isTestMethod m
  | .asyncSuffixForTestMethod =>
    t.methods.any fun m =>
      covers m.nameLocation line column && m.modifiers.has "async" &&
        (ctx.isTestMethod m || ctx.isFixtureMethod m)
  | .nonNullableTestContextProperty =>
    (t.properties.any fun p =>
      covers p.location line column && p.name == "TestContext" &&
        Framework.isTestContext p.typeName) && ctx.isTestClass t
  | .unusedTestContextParameter =>
    t.methods.any fun m =>
      (Fixture.all.any fun fixture => fixture.isStatic && ctx.has m.attributes fixture.marker) &&
        m.parameters.any fun p =>
          covers p.location line column && Framework.isTestContext p.typeName

end Suppressor

/-- A diagnostic that does not apply, and why. -/
structure Suppressed where
  diagnostic : ExternalDiagnostic
  suppressor : Suppressor
  deriving DecidableEq, Repr, Inhabited

namespace Suppressed

def toJson (s : Suppressed) : Json :=
  .object
    [("diagnostic", s.diagnostic.toJson), ("suppressor", .string s.suppressor.name),
     ("justification", .string s.suppressor.justification)]

end Suppressed

namespace Compilation

variable (c : Compilation)

/-- The first file that a reported path may mean: one path ends in the other. -/
def reportedFile? (path : Path) : Option SourceFile :=
  c.files.find? fun file => file.path.endsWith path || path.endsWith file.path

def suppressor? (framework : Framework) (d : ExternalDiagnostic) : Option Suppressor := do
  let suppressor ← Suppressor.ofId? d.id
  let file ← c.reportedFile? d.path
  let ctx : CheckedFile := ⟨c, framework, file⟩
  if ctx.types.any fun t => suppressor.explains ctx d.line d.column t then
    some suppressor
  else
    none

/-- The diagnostics of other tools that do not apply, in their order. -/
def suppressed (diagnostics : List ExternalDiagnostic) : List Suppressed :=
  match Framework.ofCompilation? c with
  | none => []
  | some framework =>
    diagnostics.filterMap fun d => (c.suppressor? framework d).map (⟨d, ·⟩)

end Compilation

end TestLint
