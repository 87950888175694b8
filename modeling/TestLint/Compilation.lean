import TestLint.Declaration.OfTree
import TestLint.Project.Facts
import TestLint.Suppression.Directive

/-!
# Compilations

All sources of a project, read together.  A written type name is resolved to
the declarations of one type, all its parts in the order of the files; a type
that is declared elsewhere resolves to nothing.
-/

namespace TestLint

/-- How a source is turned into a syntax tree. -/
abbrev Parser := String → Tree

/-- A source with its tree and what was read off it. -/
structure SourceFile where
  id : FileId
  path : Path
  source : List Char
  tree : Tree
  declarations : FileDeclarations
  directives : Directives
  deriving Inhabited

def SourceFile.read (parse : Parser) (id : FileId) (path : Path) (text : String) : SourceFile :=
  let source := text.toList
  let tree := parse text
  { id, path, source, tree
    declarations := .ofTree id source tree
    directives := .ofSource source }

/-- The files of a project and what its project files say. -/
structure Compilation where
  files : List SourceFile
  project : ProjectFacts
  deriving Inhabited

namespace Compilation

/-- The compilation of the sources, numbered in their order. -/
def ofSources (parse : Parser) (sources : List (Path × String)) (project : ProjectFacts) :
    Compilation :=
  ⟨sources.zipIdx.map fun ((path, text), id) => .read parse id path text, project⟩

variable (c : Compilation)

def file? (id : FileId) : Option SourceFile :=
  c.files[id]?

def types : List TypeDeclaration :=
  c.files.flatMap (·.declarations.types)

def typeParts (fullName : String) : List TypeDeclaration :=
  c.types.filter (·.fullName == fullName)

def type? (fullName : String) : Option TypeDeclaration :=
  c.types.find? (·.fullName == fullName)

/-! ## Resolving names -/

/-- The state in which a written name is turned into the form of full names:
the depth of brackets, and the number of type arguments seen. -/
structure Brackets where
  depth : Nat
  arity : Nat

def metadataChars (b : Brackets) : List Char → List Char
  | [] => []
  | '<' :: rest =>
    metadataChars ⟨b.depth + 1, if b.depth = 0 then 1 else b.arity⟩ rest
  | c :: rest =>
    if c = '>' ∧ b.depth > 0 then
      let after := metadataChars { b with depth := b.depth - 1 } rest
      if b.depth = 1 then '\x60' :: (Nat.repr b.arity).toList ++ after else after
    else if c = ',' ∧ b.depth = 1 then
      metadataChars { b with arity := b.arity + 1 } rest
    else if b.depth = 0 ∧ !Text.isBlank c then
      c :: metadataChars b rest
    else
      metadataChars b rest

/-- A written name in the form of full names: type arguments are replaced by
their number, blanks are dropped. -/
def metadataForm (written : String) : String :=
  Text.onString (metadataChars ⟨0, 0⟩) written

/-- The written name without blanks around it, nullable marks and the alias of
the global namespace. -/
def plainName (written : String) : String :=
  Name.withoutGlobal <|
    Text.onString (fun cs => Text.dropEndWhile (· == '?') (Text.trim cs)) written

def lastSegment (metadata : String) : String :=
  match Text.cutLast? ['.'] metadata.toList with
  | some (_, last) => String.ofList last
  | none => metadata

/-- The number that is spelled up to the last digit, perhaps after a plus sign;
zero if none is. -/
def arityOf (cs : List Char) : Nat :=
  let spelled := Text.dropEndWhile (!Char.isDigit ·) cs
  match Literal.natural? 10 ((Text.dropStart? ['+'] spelled).getD spelled) with
  | some n => if n < Nat.pow 2 64 then n else 0
  | none => 0

/-- The simple name and the number of type parameters that a last segment asks for. -/
def simpleAndArity (last : String) : String × Nat :=
  match Text.cut? ['\x60'] last.toList with
  | some (name, digits) => (Name.simple (String.ofList name), arityOf digits)
  | none => (Name.simple last, 0)

/-- The full names of the types with a simple name and number of type
parameters, in alphabetical order, each once. -/
def candidates (simple : String) (arity : Nat) : List String :=
  let found := c.types.filter fun t => t.name == simple && t.typeParameters.length == arity
  ((found.map (·.fullName)).mergeSort fun a b => a ≤ b).eraseDups

/-- Of several candidates, the one nested in the context, else the one in the
context's namespace, else the first. -/
def choose (last : String) (context : Option TypeDeclaration) : List String → Option String
  | [] => none
  | [only] => some only
  | first :: others =>
    let names := first :: others
    let nested := context.bind fun t => names.find? (· == t.fullName ++ "." ++ last)
    let sibling := context.bind fun t => t.namespaceName.bind fun ns =>
      names.find? (· == ns ++ "." ++ last)
    some ((nested <|> sibling).getD first)

/-- The parts of the type that a name means where `context` is declared; a
dotted name that is a full name means that type. -/
def resolve (written : String) (context : Option TypeDeclaration) : List TypeDeclaration :=
  let metadata := metadataForm (plainName written)
  let exact := if metadata.toList.contains '.' then c.typeParts metadata else []
  if !exact.isEmpty then
    exact
  else
    let last := lastSegment metadata
    let (simple, arity) := simpleAndArity last
    match choose last context (c.candidates simple arity) with
    | some fullName => c.typeParts fullName
    | none => []

/-! ## Base types -/

/-- A type whose base list is still to be gone through. -/
structure PendingBases where
  bases : List String
  /-- The full name of the type that writes them. -/
  writer : String
  deriving DecidableEq, Repr, Inhabited

/-- The state of the walk over base lists. -/
structure BaseWalk where
  /-- The types to be gone through, the next one first. -/
  pending : List PendingBases
  /-- The full names met so far. -/
  visited : List String
  found : List TypeDeclaration
  deriving Inhabited

def pooledBases (parts : List TypeDeclaration) : List String :=
  parts.flatMap (·.baseTypes)

def BaseWalk.add (context : Option TypeDeclaration) (w : BaseWalk) (base : String) : BaseWalk :=
  let parts := c.resolve base context
  match parts with
  | [] => w
  | first :: _ =>
    if w.visited.contains first.fullName then
      w
    else
      { pending := ⟨pooledBases parts, first.fullName⟩ :: w.pending
        visited := first.fullName :: w.visited
        found := w.found ++ parts }

/-- Goes through the pending base lists, the one met last first. Each step
takes one list away, and a list is only added for a type not met before, so
`fuel` need not exceed the number of types and one. -/
def BaseWalk.run : Nat → BaseWalk → BaseWalk
  | 0, w => w
  | fuel + 1, w =>
    match w.pending with
    | [] => w
    | next :: rest =>
      let context := c.type? next.writer
      run fuel (next.bases.foldl (BaseWalk.add c context) { w with pending := rest })

/-- All parts of the base types that are declared here, each type once. -/
def baseTypes (t : TypeDeclaration) : List TypeDeclaration :=
  let pooled := pooledBases (c.typeParts t.fullName)
  let bases := if pooled.isEmpty then t.baseTypes else pooled
  (BaseWalk.run c (c.types.length + 1) ⟨[⟨bases, t.fullName⟩], [t.fullName], []⟩).found

/-! ## Files and nodes -/

/-- Some file brings the namespace into all files. -/
def hasGlobalImport (namespaceName : String) : Bool :=
  c.files.any fun f => f.declarations.usings.any fun u =>
    u.isGlobal && !u.isStatic && u.localName.isNone && u.target == namespaceName

def nodeAt? (handle : SyntaxHandle) : Option Tree := do
  let file ← c.file? handle.file
  file.tree.nodeAt? handle.start handle.stop

end Compilation

end TestLint
