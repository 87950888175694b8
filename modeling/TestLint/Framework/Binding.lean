import TestLint.Compilation
import TestLint.Framework.Types

/-!
# Binding attributes to the framework

An attribute is a type of the framework by its name, where the framework's
namespace is in scope, or because its class, declared in the compilation,
derives from one.  A declared class hides the framework's type of its name, as
long as it derives from anything at all.
-/

namespace TestLint

/-- The framework as a compilation refers to it. -/
structure Framework where
  /-- The framework's namespace is in scope in all files. -/
  implicitImport : Bool
  deriving DecidableEq, Repr, Inhabited

namespace Framework

open FrameworkType (frameworkNamespace isFrameworkNamespace)

/-- The name is qualified by the framework's namespace. -/
def isQualified (written : String) : Bool :=
  (Name.qualifier? written).any isFrameworkNamespace

/-- The file refers to the framework: by a using directive, an attribute or a
base type. -/
def isReferredTo (file : SourceFile) : Bool :=
  file.declarations.usings.any (fun u => isFrameworkNamespace u.target || isQualified u.target) ||
  file.declarations.types.any fun t =>
    t.attributes.any (isQualified ·.name) ||
    t.baseTypes.any isQualified ||
    t.methods.any fun m => m.attributes.any (isQualified ·.name)

def ofCompilation? (c : Compilation) : Option Framework :=
  if c.project.references == some true || c.files.any isReferredTo then
    some ⟨c.project.implicitImport || c.hasGlobalImport frameworkNamespace⟩
  else
    none

variable (f : Framework)

/-- Names of the framework can be written without its namespace in the file. -/
def inScope (file : SourceFile) : Bool :=
  f.implicitImport || file.declarations.usings.any fun u =>
    u.target == frameworkNamespace && u.localName.isNone && !u.isStatic

/-- The attribute class, declared in the compilation, that a name means: a type
with or without the ending `Attribute` that derives from something. -/
def declaredClass (c : Compilation) (short : String) (context : Option TypeDeclaration) :
    List TypeDeclaration :=
  let suffixed := c.resolve (short ++ "Attribute") context
  let declared := if suffixed.isEmpty then c.resolve short context else suffixed
  if declared.any (!·.baseTypes.isEmpty) then declared else []

/-- The type of the framework that a name means by itself. -/
def known? (file : SourceFile) (written : String) : Option FrameworkType := do
  let known ← FrameworkType.ofShortName? (Name.attributeShort written)
  let visible := match Name.qualifier? written with
    | some q => isFrameworkNamespace q
    | none => f.inScope file
  if visible then some known else none

/-- The type of the framework that a written name leads to, and the classes met
so far. Every step down a declared class meets a new one, so `fuel` need not
exceed the number of types and one. -/
def bindName (c : Compilation) : Nat → SourceFile → String → Option TypeDeclaration →
    List String → Option FrameworkType × List String
  | 0, _, _, _, visited => (none, visited)
  | fuel + 1, file, written, context, visited =>
    match declaredClass c (Name.attributeShort written) context with
    | [] => (f.known? file written, visited)
    | first :: others =>
      if isQualified written then
        (f.known? file written, visited)
      else if visited.contains first.fullName then
        (none, visited)
      else
        let declaring := (c.file? first.file).getD file
        let bases := Compilation.pooledBases (first :: others)
        bases.foldl
          (fun state base =>
            match state with
            | (some found, visited) => (some found, visited)
            | (none, visited) => bindName c fuel declaring base (some first) visited)
          (none, first.fullName :: visited)

/-- The type of the framework that an attribute is. -/
def bind? (c : Compilation) (file : SourceFile) (a : Attribute) : Option FrameworkType :=
  (f.bindName c (c.types.length + 1) file a.name none []).1

/-- The attribute is the target, or derives from it. -/
def attributeIs (c : Compilation) (file : SourceFile) (a : Attribute) (target : FrameworkType) :
    Bool :=
  (f.bind? c file a).any (·.derivesFrom target)

def find? (c : Compilation) (file : SourceFile) (attrs : List Attribute)
    (target : FrameworkType) : Option Attribute :=
  attrs.find? fun a => f.attributeIs c file a target

def has (c : Compilation) (file : SourceFile) (attrs : List Attribute) (target : FrameworkType) :
    Bool :=
  (f.find? c file attrs target).isSome

/-- A written type name means the framework's `TestContext`. -/
def isTestContext (written : String) : Bool :=
  let name := Compilation.plainName written
  name == "TestContext" || name == FrameworkType.testContext.metadataName

end Framework

end TestLint
