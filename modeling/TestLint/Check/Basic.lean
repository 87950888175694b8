import TestLint.Framework.Binding
import TestLint.Framework.Fixture

/-!
# What checks look at

A check goes through one file of a compilation and gives its findings.  This
module holds the questions that many checks ask: which types are test classes,
which methods are tests, which calls are assertions, and what the parts of a
type say together.
-/

namespace TestLint

/-- A file under check, with all that surrounds it. -/
structure CheckedFile where
  compilation : Compilation
  framework : Framework
  file : SourceFile
  deriving Inhabited

/-- A check of one file. -/
abbrev Check := CheckedFile → List Finding

namespace CheckedFile

variable (ctx : CheckedFile)

def types : List TypeDeclaration :=
  ctx.file.declarations.types

def methods : List Method :=
  ctx.types.flatMap (·.methods)

def invocations : List Invocation :=
  ctx.methods.flatMap (·.invocations)

/-! ## Attributes and assertions -/

def bind? (a : Attribute) : Option FrameworkType :=
  ctx.framework.bind? ctx.compilation ctx.file a

def find? (attributes : List Attribute) (target : FrameworkType) : Option Attribute :=
  ctx.framework.find? ctx.compilation ctx.file attributes target

def has (attributes : List Attribute) (target : FrameworkType) : Bool :=
  ctx.framework.has ctx.compilation ctx.file attributes target

/-- One of the attributes, written in another file, is the target. -/
def hasIn (file : SourceFile) (attributes : List Attribute) (target : FrameworkType) : Bool :=
  ctx.framework.has ctx.compilation file attributes target

/-- The framework's class of assertions that a call is made on. -/
def assertClass? (call : Invocation) : Option String := do
  let name ← call.assertClass?
  let receiver ← call.receiver
  let visible := match Name.qualifier? receiver with
    | some q => FrameworkType.isFrameworkNamespace q
    | none => ctx.framework.inScope ctx.file
  if visible then some name else none

def isAssert (call : Invocation) (method : String) : Bool :=
  call.method == method && ctx.assertClass? call == some "Assert"

/-- The file that declares a part of a type. -/
def fileOf (part : TypeDeclaration) : SourceFile :=
  (ctx.compilation.file? part.file).getD ctx.file

/-- Some file has the assembly's internal tests discovered. -/
def discoversInternals : Bool :=
  ctx.compilation.files.any fun file =>
    ctx.hasIn file file.declarations.globalAttributes .discoverInternals

/-! ## Types and their parts -/

/-- All parts of a type; at least the one given. -/
def parts (t : TypeDeclaration) : List TypeDeclaration :=
  match ctx.compilation.typeParts t.fullName with
  | [] => [t]
  | found => found

/-- The part is the one that findings about the whole type are reported at: the
first part of its type. -/
def isPrimaryPart (t : TypeDeclaration) : Bool :=
  (ctx.compilation.type? t.fullName).all (·.handle == t.handle)

/-- The accessibility that some part writes, else that of the part given. -/
def typeAccessibility (t : TypeDeclaration) : Accessibility :=
  match (ctx.parts t).find? fun part => !part.modifiers.accessibilityTokens.isEmpty with
  | some part => part.accessibility
  | none => t.accessibility

def typeIsStatic (t : TypeDeclaration) : Bool :=
  (ctx.parts t).any (·.isStatic)

def typeIsAbstract (t : TypeDeclaration) : Bool :=
  (ctx.parts t).any (·.isAbstract)

def isTestClass (t : TypeDeclaration) : Bool :=
  match ctx.compilation.typeParts t.fullName with
  | [] => ctx.has t.attributes .testClass
  | parts => parts.any fun part => ctx.hasIn (ctx.fileOf part) part.attributes .testClass

def methodsOfAllParts (t : TypeDeclaration) : List (SourceFile × Method) :=
  (ctx.compilation.typeParts t.fullName).flatMap fun part =>
    match ctx.compilation.file? part.file with
    | some file => part.methods.map (file, ·)
    | none => []

/-! ## Methods -/

def isTestMethod (m : Method) : Bool :=
  ctx.has m.attributes .testMethod

def isFixtureMethod (m : Method) : Bool :=
  Fixture.all.any fun fixture => ctx.has m.attributes fixture.marker

def declaresTest (t : TypeDeclaration) : Bool :=
  (ctx.methodsOfAllParts t).any fun (file, m) => ctx.hasIn file m.attributes .testMethod

/-- The type, or a type it derives from, declares a test. -/
def hasTestInHierarchy (t : TypeDeclaration) : Bool :=
  ctx.declaresTest t ||
    (ctx.compilation.baseTypes t).any fun base =>
      base.methods.any fun m => ctx.hasIn (ctx.fileOf base) m.attributes .testMethod

end CheckedFile

namespace Check

/-- The types that a test may return. -/
def isTestReturnType (written : String) : Bool :=
  let name := Text.trim written.toList
  name == "void".toList ||
    (!name.contains '<' &&
      (Name.simpleChars name == "Task".toList || Name.simpleChars name == "ValueTask".toList))

/-- Makes a member public: replaces what is written of its accessibility, or
writes it before the first modifier, or else at `fallback`. -/
def publicFix (modifiers : Modifiers) (fallback : Location) : Fix :=
  let edit := match modifiers.accessibilityTokens with
    | first :: rest =>
      TextEdit.replaceSpan first.location ((rest.getLast?.getD first).location) "public"
    | [] =>
      let start := (modifiers.tokens.head?.map (·.location)).getD fallback
      TextEdit.insert start.line start.column "public "
  ⟨"Make the member 'public'", [edit]⟩

/-- Makes a method that gives nothing give a task. -/
def taskFix (returnType : Location) : Fix :=
  ⟨"Return 'Task' instead of 'void'", [.replace returnType "Task"]⟩

end Check

end TestLint
