import TestLint.Check.Basic

/-!
# Checks of test methods

The signature that the framework can call, tests that are switched off, and
public methods of test classes that are no tests.
-/

namespace TestLint.Check

/-- The method is given its arguments by a framework attribute. -/
def isDataDriven (ctx : CheckedFile) (m : Method) : Bool :=
  ctx.has m.attributes .dataRow || ctx.has m.attributes .dynamicData

/-- The method has an attribute that is none of the framework's; it may be a
source of arguments. -/
def hasForeignAttribute (ctx : CheckedFile) (m : Method) : Bool :=
  m.attributes.any fun a => (ctx.bind? a).isNone

def testMethodFindings (ctx : CheckedFile) (m : Method) : List Finding :=
  let report (problem : String) : Finding :=
    .new m.nameLocation ("Test method '" ++ m.name ++ "' " ++ problem)
  let dataDriven := isDataDriven ctx m
  (if m.accessibility ≠ .isPublic then
    [(report "should be 'public'").withFix (publicFix m.modifiers m.returnTypeLocation)]
    else []) ++
  (if m.modifiers.has "abstract" then [report "should not be 'abstract'"] else []) ++
  (if m.isStatic then [report "should not be 'static'"] else []) ++
  (if m.isGeneric && !dataDriven then
    [report "should not be generic unless it is data-driven"] else []) ++
  (if m.isAsyncVoid then
    [(report "should not be 'async void'").withFix (taskFix m.returnTypeLocation)]
  else if !isTestReturnType m.returnType then
    [report "should return 'void', 'Task' or 'ValueTask'"]
  else []) ++
  (if !m.parameters.isEmpty && !dataDriven && !hasForeignAttribute ctx m then
    [report "should not take parameters without a data source"] else [])

/-- Tests have a signature that the framework can call. -/
def testMethodShouldBeValid : Check := fun ctx =>
  (ctx.methods.filter fun m => ctx.isTestMethod m && !m.isExplicitImplementation).flatMap
    (testMethodFindings ctx)

/-- Tests are not switched off. -/
def testMethodShouldNotBeIgnored : Check := fun ctx =>
  (ctx.methods.filter ctx.isTestMethod).filterMap fun m =>
    (ctx.find? m.attributes .ignore).map fun a =>
      Finding.new a.location ("Test method '" ++ m.name ++ "' should not be ignored")
        |>.withSuggestion "Fix or delete the test instead of ignoring it"

/-- The methods that any class may have in public. -/
def ordinaryPublicMethods : List String :=
  ["Dispose", "DisposeAsync", "ToString", "Equals", "GetHashCode"]

/-- Public methods of test classes are tests or fixtures. -/
def publicMethodShouldBeTestMethod : Check := fun ctx =>
  (ctx.types.filter ctx.isTestClass).flatMap fun t =>
    t.methods.filterMap fun m =>
      if m.accessibility ≠ .isPublic || m.modifiers.has "abstract" ||
          m.isExplicitImplementation || ordinaryPublicMethods.contains m.name ||
          ctx.isTestMethod m || ctx.isFixtureMethod m then
        none
      else
        some <|
          Finding.new m.nameLocation
              ("Public method '" ++ m.name ++ "' of test class '" ++ t.name ++
                "' should be a test method")
            |>.withSuggestion "Mark it [TestMethod] or reduce its accessibility"

end TestLint.Check
