import TestLint.Check.AssertArguments
import TestLint.Check.AssertOutcome
import TestLint.Check.AssertRewrite
import TestLint.Check.CancellationToken
import TestLint.Check.DataRow
import TestLint.Check.DuplicateDataRow
import TestLint.Check.DynamicData
import TestLint.Check.FixtureMethod
import TestLint.Check.MethodAttribute
import TestLint.Check.TestClass
import TestLint.Check.TestContext
import TestLint.Check.TestMethod

/-!
# The checks of the rules

Every rule is checked file by file, but for the one about duplicates, which
compares methods across files.
-/

namespace TestLint

/-- The check of a rule, as far as it is made file by file. -/
def Rule.check : Rule → Check
  | .testClassShouldBeValid => Check.testClassShouldBeValid
  | .testMethodShouldBeValid => Check.testMethodShouldBeValid
  | .testContextShouldBeValid => Check.testContextShouldBeValid
  | .avoidExpectedExceptionAttribute => Check.avoidExpectedExceptionAttribute
  | .useAttributeOnTestMethod => Check.useAttributeOnTestMethod
  | .testInitializeShouldBeValid => Check.fixtureShouldBeValid .testInitialize
  | .testCleanupShouldBeValid => Check.fixtureShouldBeValid .testCleanup
  | .classInitializeShouldBeValid => Check.fixtureShouldBeValid .classInitialize
  | .classCleanupShouldBeValid => Check.fixtureShouldBeValid .classCleanup
  | .assemblyInitializeShouldBeValid => Check.fixtureShouldBeValid .assemblyInitialize
  | .assemblyCleanupShouldBeValid => Check.fixtureShouldBeValid .assemblyCleanup
  | .dataRowShouldBeValid => Check.dataRowShouldBeValid
  | .testMethodShouldNotBeIgnored => Check.testMethodShouldNotBeIgnored
  | .testClassShouldHaveTestMethod => Check.testClassShouldHaveTestMethod
  | .assertionArgsShouldBePassedInCorrectOrder =>
    Check.assertionArgsShouldBePassedInCorrectOrder
  | .dynamicDataShouldBeValid => Check.dynamicDataShouldBeValid
  | .doNotNegateBooleanAssertion => Check.doNotNegateBooleanAssertion
  | .preferAssertFailOverAlwaysFalseConditions =>
    Check.preferAssertFailOverAlwaysFalseConditions
  | .assertionArgsShouldAvoidConditionalAccess =>
    Check.assertionArgsShouldAvoidConditionalAccess
  | .publicMethodShouldBeTestMethod => Check.publicMethodShouldBeTestMethod
  | .typeContainingTestMethodShouldBeATestClass =>
    Check.typeContainingTestMethodShouldBeATestClass
  | .reviewAlwaysTrueAssertCondition => Check.reviewAlwaysTrueAssertCondition
  | .useProperAssertMethods => Check.useProperAssertMethods
  | .avoidUsingAssertsInAsyncVoidContext => Check.avoidUsingAssertsInAsyncVoidContext
  | .duplicateDataRow => Check.duplicateDataRow
  | .preferTestMethodOverDataTestMethod => Check.preferTestMethodOverDataTestMethod
  | .flowTestContextCancellationToken => Check.flowTestContextCancellationToken
  | .avoidDuplicateTestMethods => fun _ => []

end TestLint
