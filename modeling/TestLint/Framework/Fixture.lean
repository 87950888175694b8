import TestLint.Framework.Types
import TestLint.Rule

/-!
# Fixtures

Methods that the framework calls around the tests: before and after each test,
each class, or all tests of an assembly.  Those of classes and assemblies are
static and may be given the context of the run.
-/

namespace TestLint

/-- The fixtures of the framework. -/
inductive Fixture where
  | testInitialize
  | testCleanup
  | classInitialize
  | classCleanup
  | assemblyInitialize
  | assemblyCleanup
  deriving DecidableEq, Repr, Inhabited

/-- The parameters that a fixture takes. -/
inductive FixtureParameters where
  | nothing
  | context
  | nothingOrContext
  deriving DecidableEq, Repr, Inhabited

namespace Fixture

def all : List Fixture :=
  [.testInitialize, .testCleanup, .classInitialize, .classCleanup, .assemblyInitialize,
   .assemblyCleanup]

def marker : Fixture → FrameworkType
  | .testInitialize => .testInitialize
  | .testCleanup => .testCleanup
  | .classInitialize => .classInitialize
  | .classCleanup => .classCleanup
  | .assemblyInitialize => .assemblyInitialize
  | .assemblyCleanup => .assemblyCleanup

/-- The rule about methods that the fixture marks. -/
def rule : Fixture → Rule
  | .testInitialize => .testInitializeShouldBeValid
  | .testCleanup => .testCleanupShouldBeValid
  | .classInitialize => .classInitializeShouldBeValid
  | .classCleanup => .classCleanupShouldBeValid
  | .assemblyInitialize => .assemblyInitializeShouldBeValid
  | .assemblyCleanup => .assemblyCleanupShouldBeValid

/-- The fixture is called once for an assembly. -/
def isAssemblyLevel : Fixture → Bool
  | .assemblyInitialize | .assemblyCleanup => true
  | _ => false

/-- The fixture is called without an object of its class. -/
def isStatic : Fixture → Bool
  | .testInitialize | .testCleanup => false
  | _ => true

def parameters : Fixture → FixtureParameters
  | .testInitialize | .testCleanup => .nothing
  | .classInitialize | .assemblyInitialize => .context
  | .classCleanup | .assemblyCleanup => .nothingOrContext

end Fixture

end TestLint
