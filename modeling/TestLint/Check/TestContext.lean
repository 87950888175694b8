import TestLint.Check.Basic

/-!
# The context property of test classes

The framework sets the property `TestContext` of a test class before each test;
it must be able to.
-/

namespace TestLint.Check

/-- What keeps the framework from setting the property. -/
def contextProblems (p : Property) : List String :=
  (if p.accessibility ≠ .isPublic then ["should be 'public'"] else []) ++
  (if p.modifiers.has "static" then ["should not be 'static'"] else []) ++
  (if !p.hasGetter then ["should have a getter"] else []) ++
  (if !p.hasSetter then
    ["should have a setter"]
  else if p.setterAccessibility.any (· ≠ .isPublic) then
    ["should have a 'public' setter"]
  else [])

/-- The context property of a test class can be set. -/
def testContextShouldBeValid : Check := fun ctx =>
  (ctx.types.filter ctx.isTestClass).flatMap fun t =>
    t.properties.filterMap fun p =>
      if Text.equalIgnoringCase p.name "TestContext" && Framework.isTestContext p.typeName then
        match contextProblems p with
        | [] => none
        | problems =>
          some <|
            Finding.new p.nameLocation
                ("Property 'TestContext' " ++ ", ".intercalate problems)
              |>.withSuggestion
                "Declare it as 'public TestContext TestContext \x7b get; set; \x7d'"
      else
        none

end TestLint.Check
