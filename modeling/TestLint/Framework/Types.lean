import TestLint.Syntax.Name

/-!
# The types of the test framework

The types that the checks know: attributes, the classes of assertions, and the
context of a test.
-/

namespace TestLint

/-- A type of the test framework. Attributes are named without their ending. -/
inductive FrameworkType where
  | testClass
  | testMethod
  | dataTestMethod
  | dataRow
  | dynamicData
  | testInitialize
  | testCleanup
  | classInitialize
  | classCleanup
  | assemblyInitialize
  | assemblyCleanup
  | ignore
  | expectedException
  | owner
  | priority
  | description
  | testProperty
  | workItem
  | cssIteration
  | cssProjectStructure
  | timeout
  | testCategory
  | discoverInternals
  | testContext
  | assert
  | stringAssert
  | collectionAssert
  | dynamicDataSourceType
  deriving DecidableEq, Repr, Inhabited

namespace FrameworkType

def frameworkNamespace : String :=
  "Microsoft.VisualStudio.TestTools.UnitTesting"

def all : List FrameworkType :=
  [.testClass,
   .testMethod,
   .dataTestMethod,
   .dataRow,
   .dynamicData,
   .testInitialize,
   .testCleanup,
   .classInitialize,
   .classCleanup,
   .assemblyInitialize,
   .assemblyCleanup,
   .ignore,
   .expectedException,
   .owner,
   .priority,
   .description,
   .testProperty,
   .workItem,
   .cssIteration,
   .cssProjectStructure,
   .timeout,
   .testCategory,
   .discoverInternals,
   .testContext,
   .assert,
   .stringAssert,
   .collectionAssert,
   .dynamicDataSourceType]

def typeName : FrameworkType → String
  | .testClass => "TestClassAttribute"
  | .testMethod => "TestMethodAttribute"
  | .dataTestMethod => "DataTestMethodAttribute"
  | .dataRow => "DataRowAttribute"
  | .dynamicData => "DynamicDataAttribute"
  | .testInitialize => "TestInitializeAttribute"
  | .testCleanup => "TestCleanupAttribute"
  | .classInitialize => "ClassInitializeAttribute"
  | .classCleanup => "ClassCleanupAttribute"
  | .assemblyInitialize => "AssemblyInitializeAttribute"
  | .assemblyCleanup => "AssemblyCleanupAttribute"
  | .ignore => "IgnoreAttribute"
  | .expectedException => "ExpectedExceptionAttribute"
  | .owner => "OwnerAttribute"
  | .priority => "PriorityAttribute"
  | .description => "DescriptionAttribute"
  | .testProperty => "TestPropertyAttribute"
  | .workItem => "WorkItemAttribute"
  | .cssIteration => "CssIterationAttribute"
  | .cssProjectStructure => "CssProjectStructureAttribute"
  | .timeout => "TimeoutAttribute"
  | .testCategory => "TestCategoryAttribute"
  | .discoverInternals => "DiscoverInternalsAttribute"
  | .testContext => "TestContext"
  | .assert => "Assert"
  | .stringAssert => "StringAssert"
  | .collectionAssert => "CollectionAssert"
  | .dynamicDataSourceType => "DynamicDataSourceType"

def metadataName (t : FrameworkType) : String :=
  frameworkNamespace ++ "." ++ t.typeName

/-- The name as it is used for an attribute. -/
def shortName (t : FrameworkType) : String :=
  Name.attributeShort t.typeName

/-- The type of the framework that the type derives from. -/
def base? : FrameworkType → Option FrameworkType
  | .dataTestMethod => some .testMethod
  | _ => none

def ofShortName? (short : String) : Option FrameworkType :=
  all.find? (·.shortName == short)

/-- The type is `target` or derives from it. -/
def derivesFrom (t target : FrameworkType) : Bool :=
  t == target || t.base? == some target

/-- The name, up to the alias of the global namespace, is the framework's namespace. -/
def isFrameworkNamespace (name : String) : Bool :=
  Name.withoutGlobal name == frameworkNamespace

end FrameworkType

end TestLint
