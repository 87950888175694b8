import TestLint.Text.Blank

/-!
# Rules

The conventions that are checked, each with its id, its name, a title, the
severity it has unless configured otherwise, and whether it is checked
without being asked for and can come with a fix.
-/

namespace TestLint

/-- How grave a diagnostic is. -/
inductive Severity where
  | error
  | warning
  | info
  deriving DecidableEq, Repr, Inhabited

namespace Severity

def name : Severity → String
  | .error => "error"
  | .warning => "warning"
  | .info => "info"

def ofName? : String → Option Severity
  | "error" => some .error
  | "warning" => some .warning
  | "info" => some .info
  | _ => none

theorem ofName?_name (s : Severity) : ofName? s.name = some s := by
  cases s <;> rfl

end Severity

/-- What a rule is about. -/
inductive Category where
  | usage
  | design
  | reliability
  deriving DecidableEq, Repr, Inhabited

def Category.name : Category → String
  | .usage => "Usage"
  | .design => "Design"
  | .reliability => "Reliability"

/-- The conventions, in the order of their ids. -/
inductive Rule where
  | testClassShouldBeValid
  | testMethodShouldBeValid
  | testContextShouldBeValid
  | avoidExpectedExceptionAttribute
  | useAttributeOnTestMethod
  | testInitializeShouldBeValid
  | testCleanupShouldBeValid
  | classInitializeShouldBeValid
  | classCleanupShouldBeValid
  | assemblyInitializeShouldBeValid
  | assemblyCleanupShouldBeValid
  | dataRowShouldBeValid
  | testMethodShouldNotBeIgnored
  | testClassShouldHaveTestMethod
  | assertionArgsShouldBePassedInCorrectOrder
  | dynamicDataShouldBeValid
  | doNotNegateBooleanAssertion
  | preferAssertFailOverAlwaysFalseConditions
  | assertionArgsShouldAvoidConditionalAccess
  | publicMethodShouldBeTestMethod
  | typeContainingTestMethodShouldBeATestClass
  | reviewAlwaysTrueAssertCondition
  | useProperAssertMethods
  | avoidUsingAssertsInAsyncVoidContext
  | duplicateDataRow
  | preferTestMethodOverDataTestMethod
  | flowTestContextCancellationToken
  | avoidDuplicateTestMethods
  deriving DecidableEq, Repr, Inhabited

namespace Rule

def all : List Rule :=
  [.testClassShouldBeValid,
   .testMethodShouldBeValid,
   .testContextShouldBeValid,
   .avoidExpectedExceptionAttribute,
   .useAttributeOnTestMethod,
   .testInitializeShouldBeValid,
   .testCleanupShouldBeValid,
   .classInitializeShouldBeValid,
   .classCleanupShouldBeValid,
   .assemblyInitializeShouldBeValid,
   .assemblyCleanupShouldBeValid,
   .dataRowShouldBeValid,
   .testMethodShouldNotBeIgnored,
   .testClassShouldHaveTestMethod,
   .assertionArgsShouldBePassedInCorrectOrder,
   .dynamicDataShouldBeValid,
   .doNotNegateBooleanAssertion,
   .preferAssertFailOverAlwaysFalseConditions,
   .assertionArgsShouldAvoidConditionalAccess,
   .publicMethodShouldBeTestMethod,
   .typeContainingTestMethodShouldBeATestClass,
   .reviewAlwaysTrueAssertCondition,
   .useProperAssertMethods,
   .avoidUsingAssertsInAsyncVoidContext,
   .duplicateDataRow,
   .preferTestMethodOverDataTestMethod,
   .flowTestContextCancellationToken,
   .avoidDuplicateTestMethods]

/-- The id, as diagnostics and configurations give it. -/
def id : Rule → String
  | .testClassShouldBeValid => "MSTEST0002"
  | .testMethodShouldBeValid => "MSTEST0003"
  | .testContextShouldBeValid => "MSTEST0005"
  | .avoidExpectedExceptionAttribute => "MSTEST0006"
  | .useAttributeOnTestMethod => "MSTEST0007"
  | .testInitializeShouldBeValid => "MSTEST0008"
  | .testCleanupShouldBeValid => "MSTEST0009"
  | .classInitializeShouldBeValid => "MSTEST0010"
  | .classCleanupShouldBeValid => "MSTEST0011"
  | .assemblyInitializeShouldBeValid => "MSTEST0012"
  | .assemblyCleanupShouldBeValid => "MSTEST0013"
  | .dataRowShouldBeValid => "MSTEST0014"
  | .testMethodShouldNotBeIgnored => "MSTEST0015"
  | .testClassShouldHaveTestMethod => "MSTEST0016"
  | .assertionArgsShouldBePassedInCorrectOrder => "MSTEST0017"
  | .dynamicDataShouldBeValid => "MSTEST0018"
  | .doNotNegateBooleanAssertion => "MSTEST0023"
  | .preferAssertFailOverAlwaysFalseConditions => "MSTEST0025"
  | .assertionArgsShouldAvoidConditionalAccess => "MSTEST0026"
  | .publicMethodShouldBeTestMethod => "MSTEST0029"
  | .typeContainingTestMethodShouldBeATestClass => "MSTEST0030"
  | .reviewAlwaysTrueAssertCondition => "MSTEST0032"
  | .useProperAssertMethods => "MSTEST0037"
  | .avoidUsingAssertsInAsyncVoidContext => "MSTEST0040"
  | .duplicateDataRow => "MSTEST0042"
  | .preferTestMethodOverDataTestMethod => "MSTEST0044"
  | .flowTestContextCancellationToken => "MSTEST0049"
  | .avoidDuplicateTestMethods => "MSTEST0064"

/-- The name, accepted wherever an id is. -/
def name : Rule → String
  | .testClassShouldBeValid => "test-class-should-be-valid"
  | .testMethodShouldBeValid => "test-method-should-be-valid"
  | .testContextShouldBeValid => "test-context-should-be-valid"
  | .avoidExpectedExceptionAttribute => "avoid-expected-exception-attribute"
  | .useAttributeOnTestMethod => "use-attribute-on-test-method"
  | .testInitializeShouldBeValid => "test-initialize-should-be-valid"
  | .testCleanupShouldBeValid => "test-cleanup-should-be-valid"
  | .classInitializeShouldBeValid => "class-initialize-should-be-valid"
  | .classCleanupShouldBeValid => "class-cleanup-should-be-valid"
  | .assemblyInitializeShouldBeValid => "assembly-initialize-should-be-valid"
  | .assemblyCleanupShouldBeValid => "assembly-cleanup-should-be-valid"
  | .dataRowShouldBeValid => "data-row-should-be-valid"
  | .testMethodShouldNotBeIgnored => "test-method-should-not-be-ignored"
  | .testClassShouldHaveTestMethod => "test-class-should-have-test-method"
  | .assertionArgsShouldBePassedInCorrectOrder =>
    "assertion-args-should-be-passed-in-correct-order"
  | .dynamicDataShouldBeValid => "dynamic-data-should-be-valid"
  | .doNotNegateBooleanAssertion => "do-not-negate-boolean-assertion"
  | .preferAssertFailOverAlwaysFalseConditions =>
    "prefer-assert-fail-over-always-false-conditions"
  | .assertionArgsShouldAvoidConditionalAccess =>
    "assertion-args-should-avoid-conditional-access"
  | .publicMethodShouldBeTestMethod => "public-method-should-be-test-method"
  | .typeContainingTestMethodShouldBeATestClass =>
    "type-containing-test-method-should-be-a-test-class"
  | .reviewAlwaysTrueAssertCondition => "review-always-true-assert-condition"
  | .useProperAssertMethods => "use-proper-assert-methods"
  | .avoidUsingAssertsInAsyncVoidContext => "avoid-using-asserts-in-async-void-context"
  | .duplicateDataRow => "duplicate-data-row"
  | .preferTestMethodOverDataTestMethod => "prefer-test-method-over-data-test-method"
  | .flowTestContextCancellationToken => "flow-test-context-cancellation-token"
  | .avoidDuplicateTestMethods => "avoid-duplicate-test-methods"

def title : Rule → String
  | .testClassShouldBeValid => "Test classes should have valid layout"
  | .testMethodShouldBeValid => "Test methods should have valid layout"
  | .testContextShouldBeValid => "TestContext property should have valid layout"
  | .avoidExpectedExceptionAttribute => "Avoid [ExpectedException]"
  | .useAttributeOnTestMethod => "Test attributes should be on test methods"
  | .testInitializeShouldBeValid => "TestInitialize method should have valid layout"
  | .testCleanupShouldBeValid => "TestCleanup method should have valid layout"
  | .classInitializeShouldBeValid => "ClassInitialize method should have valid layout"
  | .classCleanupShouldBeValid => "ClassCleanup method should have valid layout"
  | .assemblyInitializeShouldBeValid => "AssemblyInitialize method should have valid layout"
  | .assemblyCleanupShouldBeValid => "AssemblyCleanup method should have valid layout"
  | .dataRowShouldBeValid => "DataRow should be valid"
  | .testMethodShouldNotBeIgnored => "Test method should not be ignored"
  | .testClassShouldHaveTestMethod => "Test class should have test method"
  | .assertionArgsShouldBePassedInCorrectOrder =>
    "Assertion arguments should be passed in the correct order"
  | .dynamicDataShouldBeValid => "DynamicData should be valid"
  | .doNotNegateBooleanAssertion => "Do not negate boolean assertions"
  | .preferAssertFailOverAlwaysFalseConditions =>
    "Use 'Assert.Fail' instead of an always-failing assert"
  | .assertionArgsShouldAvoidConditionalAccess => "Avoid conditional access in assertions"
  | .publicMethodShouldBeTestMethod => "Public methods should be test methods"
  | .typeContainingTestMethodShouldBeATestClass =>
    "Type containing [TestMethod] should be marked with [TestClass]"
  | .reviewAlwaysTrueAssertCondition => "Review or remove the always-true assertion"
  | .useProperAssertMethods => "Use proper 'Assert' methods"
  | .avoidUsingAssertsInAsyncVoidContext => "Do not assert inside 'async void' contexts"
  | .duplicateDataRow => "Avoid duplicated 'DataRow' entries"
  | .preferTestMethodOverDataTestMethod => "Prefer 'TestMethod' over 'DataTestMethod'"
  | .flowTestContextCancellationToken => "Flow TestContext.CancellationToken to calls"
  | .avoidDuplicateTestMethods => "Test methods should not be duplicated"

/-- The severity of a rule that no configuration mentions. -/
def defaultSeverity : Rule → Severity
  | .avoidExpectedExceptionAttribute
  | .testMethodShouldNotBeIgnored
  | .testClassShouldHaveTestMethod
  | .assertionArgsShouldBePassedInCorrectOrder
  | .doNotNegateBooleanAssertion
  | .preferAssertFailOverAlwaysFalseConditions
  | .assertionArgsShouldAvoidConditionalAccess
  | .publicMethodShouldBeTestMethod
  | .reviewAlwaysTrueAssertCondition
  | .useProperAssertMethods
  | .preferTestMethodOverDataTestMethod
  | .flowTestContextCancellationToken => .info
  | _ => .warning

def category : Rule → Category
  | .avoidExpectedExceptionAttribute
  | .testMethodShouldNotBeIgnored
  | .testClassShouldHaveTestMethod
  | .publicMethodShouldBeTestMethod
  | .duplicateDataRow
  | .preferTestMethodOverDataTestMethod
  | .avoidDuplicateTestMethods => .design
  | .assertionArgsShouldAvoidConditionalAccess
  | .avoidUsingAssertsInAsyncVoidContext
  | .flowTestContextCancellationToken => .reliability
  | _ => .usage

/-- The rule is checked without being asked for. -/
def enabledByDefault : Rule → Bool
  | .testMethodShouldNotBeIgnored
  | .publicMethodShouldBeTestMethod => false
  | _ => true

/-- The rule's diagnostics can come with a fix. -/
def isFixable : Rule → Bool
  | .testMethodShouldBeValid
  | .testInitializeShouldBeValid
  | .testCleanupShouldBeValid
  | .classInitializeShouldBeValid
  | .classCleanupShouldBeValid
  | .assemblyInitializeShouldBeValid
  | .assemblyCleanupShouldBeValid
  | .assertionArgsShouldBePassedInCorrectOrder
  | .doNotNegateBooleanAssertion
  | .preferAssertFailOverAlwaysFalseConditions
  | .useProperAssertMethods
  | .preferTestMethodOverDataTestMethod
  | .flowTestContextCancellationToken => true
  | _ => false

/-- The rule that a text names, blanks around it aside: by its id in any
letter case, or by its name. -/
def ofText? (text : String) : Option Rule :=
  let key := Text.trimmed text
  all.find? fun rule => Text.equalIgnoringCase rule.id key || rule.name == key

/-- The rule with exactly this id. -/
def ofId? (id : String) : Option Rule :=
  all.find? (·.id == id)

end Rule

end TestLint
