import TestLint.Check.Basic

/-!
# The attributes of methods

Attributes that mean nothing on their method, or that say no more than another
one does.
-/

namespace TestLint.Check

/-- The method does not rely on an exception thrown anywhere in it. -/
def avoidExpectedExceptionAttribute : Check := fun ctx =>
  ctx.methods.filterMap fun m =>
    (ctx.find? m.attributes .expectedException).map fun a =>
      Finding.new a.location
          ("Prefer 'Assert.ThrowsException' over '[ExpectedException]' on '" ++ m.name ++ "'")
        |>.withSuggestion
          "Wrap only the statement expected to throw in 'Assert.ThrowsException'"

/-- The attributes that only mean something on a test. -/
def testOnlyAttributes : List FrameworkType :=
  [.owner, .priority, .testProperty, .workItem, .description, .expectedException,
   .cssIteration, .cssProjectStructure, .timeout, .testCategory, .dataRow, .dynamicData]

/-- Attributes for tests stand on tests. -/
def useAttributeOnTestMethod : Check := fun ctx =>
  (ctx.methods.filter (!ctx.isTestMethod ·)).flatMap fun m =>
    m.attributes.filterMap fun a => do
      let bound ← ctx.bind? a
      if testOnlyAttributes.contains bound then
        let name := bound.shortName
        some <|
          Finding.new a.location
              ("[" ++ name ++ "] can only be set on methods marked with [TestMethod]")
            |>.withProperty "attribute" name
            |>.withSuggestion
              ("Add [TestMethod] to '" ++ m.name ++ "' or remove [" ++ name ++ "]")
      else
        none

/-- The place of `DataTest` in a name that ends in `DataTestMethod`, with or
without `Attribute`, and stands on one line. -/
def dataTestSpan? (name : String) (loc : Location) : Option Location := do
  if loc.endLine.any (· ≠ loc.line) then none
  let cs := name.toList
  let stem := (Text.dropEnd? "Attribute".toList cs).getD cs
  let before ← Text.dropEnd? "DataTestMethod".toList stem
  let start := loc.column + Text.byteSize before
  some ⟨loc.line, start, some loc.line, some (start + "DataTest".length), none⟩

/-- Tests with data are marked as any other test. -/
def preferTestMethodOverDataTestMethod : Check := fun ctx =>
  ctx.methods.flatMap fun m =>
    (m.attributes.filter fun a => ctx.bind? a == some .dataTestMethod).map fun a =>
      let finding := Finding.new a.location "Use '[TestMethod]' instead of '[DataTestMethod]'"
      match dataTestSpan? a.name a.nameLocation with
      | some span =>
        finding.withFix ⟨"Replace 'DataTestMethod' with 'TestMethod'", [.replace span "Test"]⟩
      | none => finding

end TestLint.Check
