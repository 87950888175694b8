import TestLint.Text.Chars

/-!
# Paths

A path is printed as it was written and compared by its components: repeated
slashes and inner `.` segments do not count, so `a//b`, `a/./b` and `a/b` are
one path, while a leading `.` does.
-/

namespace TestLint

structure Path where
  text : String
  deriving DecidableEq, Repr, Inhabited

namespace Path

/-- What a path consists of. -/
inductive Component where
  | root
  | current
  | parent
  | name (text : String)
  deriving DecidableEq, Repr, Inhabited

namespace Component

def rank : Component → Nat
  | .root => 0
  | .current => 1
  | .parent => 2
  | .name _ => 3

/-- The order of components: by kind, then by name. -/
def compare (a b : Component) : Ordering :=
  match a, b with
  | .name s, .name t => compareOfLessAndEq s t
  | a, b => Ord.compare a.rank b.rank

end Component

def isAbsolute (p : Path) : Bool :=
  Text.startsWith p.text "/"

/-- The leading characters that are a component of their own, a slash or a
dot segment, and the segments after them. -/
private def headAndSegments (p : Path) : List Char × List (List Char) :=
  match p.text.toList with
  | '/' :: rest => (['/'], rest.splitOn '/')
  | ['.'] => (['.'], [])
  | '.' :: '/' :: rest => (['.'], rest.splitOn '/')
  | cs => ([], cs.splitOn '/')

/-- The segment is no component: it is empty or a dot. -/
private def isIdle (segment : List Char) : Bool :=
  segment.isEmpty || segment == ['.']

private def componentOf (segment : List Char) : Component :=
  if segment == ['.', '.'] then .parent else .name (String.ofList segment)

def components (p : Path) : List Component :=
  let (head, segments) := p.headAndSegments
  let start : List Component :=
    match head with
    | ['/'] => [.root]
    | ['.'] => [.current]
    | _ => []
  start ++ (segments.filter (!isIdle ·)).map componentOf

/-- The two are one path. -/
def same (a b : Path) : Bool :=
  a.components == b.components

def compareComponents : List Component → List Component → Ordering
  | [], [] => .eq
  | [], _ :: _ => .lt
  | _ :: _, [] => .gt
  | a :: as, b :: bs => (a.compare b).then (compareComponents as bs)

/-- The order of paths: component by component, a path before those below it. -/
def compare (a b : Path) : Ordering :=
  compareComponents a.components b.components

/-- The components of the first path end with those of the second. -/
def endsWith (p ending : Path) : Bool :=
  ending.components.isSuffixOf p.components

/-- The segments without the idle ones at the end. -/
private def trimIdle (segments : List (List Char)) : List (List Char) :=
  (segments.reverse.dropWhile isIdle).reverse

/-- The path that a head and segments spell. -/
private def spell (head : List Char) (segments : List (List Char)) : Path :=
  ⟨String.ofList (head ++ List.intercalate ['/'] segments)⟩

/-- The path of the directory that holds this one: the path less its last
component.  The root and the empty path have none. -/
def parent? (p : Path) : Option Path :=
  let (head, segments) := p.headAndSegments
  match trimIdle segments with
  | [] => if head == ['.'] then some ⟨""⟩ else none
  | kept =>
    let above := trimIdle kept.dropLast
    if head == ['.'] && !above.isEmpty then
      some (spell ['.', '/'] above)
    else
      some (spell head above)

/-- The last component, if it is a name. -/
def fileName? (p : Path) : Option String :=
  match p.components.getLast? with
  | some (.name s) => some s
  | _ => none

/-- What stands after the last dot of the file name; a name whose only dot is
its first character has no extension. -/
def extension? (p : Path) : Option String := do
  let name ← p.fileName?
  let (stem, ext) ← Text.cutLast? ['.'] name.toList
  if stem.isEmpty then none else some (String.ofList ext)

/-- The path with a dot and an extension added to its file name. -/
def withExtension (p : Path) (ext : String) : Path :=
  match p.fileName? with
  | none => p
  | some name =>
    let stem := match Text.cutLast? ['.'] name.toList with
      | some (stem, _) => if stem.isEmpty then name.toList else stem
      | none => name.toList
    let (head, segments) := p.headAndSegments
    let above := (trimIdle segments).dropLast
    let head := if head == ['.'] then ['.', '/'] else head
    spell head (above ++ [stem ++ '.' :: ext.toList])

/-- The second path as seen from the first: itself if it is absolute, else
written behind the first with a slash between them where none stands. -/
def join (base rest : Path) : Path :=
  if rest.isAbsolute then
    rest
  else if base.text.isEmpty || Text.endsWith base.text "/" then
    ⟨base.text ++ rest.text⟩
  else
    ⟨base.text ++ "/" ++ rest.text⟩

/-- The path, the directory above it, and so on as far as there is one;
`fuel` bounds the number of steps. -/
private def ancestorsWithin : Nat → Path → List Path
  | 0, p => [p]
  | fuel + 1, p =>
    match p.parent? with
    | some above => p :: ancestorsWithin fuel above
    | none => [p]

/-- The path and all directories above it, nearest first. -/
def ancestors (p : Path) : List Path :=
  ancestorsWithin (p.components.length + 1) p

/-- The components of a path below a root, written with single slashes; the
path itself if it does not lie below the root. -/
def relativeTo (p root : Path) : Path :=
  let here := p.components
  let above := root.components
  if above.isPrefixOf here then
    let names := (here.drop above.length).map fun
      | .root => "/"
      | .current => "."
      | .parent => ".."
      | .name s => s
    ⟨"/".intercalate names⟩
  else
    p

end Path

end TestLint
