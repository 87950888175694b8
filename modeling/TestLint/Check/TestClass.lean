import TestLint.Check.Basic

/-!
# Checks of test classes

A type is reported once, at its first part, with a verdict that all parts share.
-/

namespace TestLint.Check

/-- The class is there for the fixtures of the assembly alone: it has one of
them, and neither other fixtures nor tests. -/
def holdsOnlyAssemblyFixtures (ctx : CheckedFile) (t : TypeDeclaration) : Bool :=
  let fixtureOf (file : SourceFile) (m : Method) : Option Fixture :=
    Fixture.all.find? fun fixture => ctx.hasIn file m.attributes fixture.marker
  let methods := ctx.methodsOfAllParts t
  let harmless := methods.all fun (file, m) =>
    match fixtureOf file m with
    | some fixture => fixture.isAssemblyLevel
    | none => !ctx.hasIn file m.attributes .testMethod
  harmless && methods.any fun (file, m) => (fixtureOf file m).isSome

def testClassProblems (ctx : CheckedFile) (t : TypeDeclaration) : List String :=
  let reachable := match ctx.typeAccessibility t with
    | .isPublic => true
    | .isInternal => ctx.discoversInternals
    | _ => false
  (if reachable then [] else ["it should be 'public'"]) ++
  (if ctx.typeIsStatic t && !holdsOnlyAssemblyFixtures ctx t then
    ["it should not be 'static'"] else []) ++
  (if t.isGeneric then ["it should not be generic"] else [])

/-- Test classes are public, not static and not generic. -/
def testClassShouldBeValid : Check := fun ctx =>
  ctx.types.filterMap fun t =>
    if t.kind = .isInterface || !ctx.isPrimaryPart t || !ctx.isTestClass t then
      none
    else
      match testClassProblems ctx t with
      | [] => none
      | problems =>
        some <|
          Finding.new t.nameLocation
              ("Test class '" ++ t.name ++ "' is not valid: " ++ ", ".intercalate problems)
            |>.withSuggestion "Test classes should be 'public', non-'static' and non-generic"

def holdsAssemblyFixture (ctx : CheckedFile) (t : TypeDeclaration) : Bool :=
  (ctx.methodsOfAllParts t).any fun (file, m) =>
    (Fixture.all.filter (·.isAssemblyLevel)).any fun fixture =>
      ctx.hasIn file m.attributes fixture.marker

/-- Test classes that are not abstract have a test, inherit one or hold
fixtures of the assembly. -/
def testClassShouldHaveTestMethod : Check := fun ctx =>
  ctx.types.filterMap fun t =>
    if t.kind = .isInterface || !ctx.isPrimaryPart t || !ctx.isTestClass t ||
        ctx.typeIsAbstract t || ctx.hasTestInHierarchy t || holdsAssemblyFixture ctx t then
      none
    else
      some <|
        Finding.new t.nameLocation
            ("Test class '" ++ t.name ++ "' should have at least one test method")
          |>.withSuggestion "Add a [TestMethod] or remove [TestClass]"

/-- Classes that declare tests are marked as test classes. -/
def typeContainingTestMethodShouldBeATestClass : Check := fun ctx =>
  ctx.types.filterMap fun t =>
    if (t.kind = .isClass || t.kind = .isRecord) && ctx.isPrimaryPart t &&
        !ctx.typeIsAbstract t && !ctx.isTestClass t && ctx.declaresTest t then
      some <|
        Finding.new t.nameLocation
            ("Type '" ++ t.name ++
              "' contains test methods and should be marked with [TestClass]")
          |>.withSuggestion "Add [TestClass] so its tests are discovered"
    else
      none

end TestLint.Check
