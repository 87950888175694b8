import TestLint.Path

/-!
# Files and directories

The files of a run as a tree of named nodes below the working directory.
Paths are looked up from there, segment by segment as the system does: `.` and
empty segments stay, `..` goes back, and both ask for a directory.  What lies
outside the working directory does not exist.  A name has at most 255 bytes and
a path at most 4095; longer ones are refused, a name where it is looked up.
-/

namespace TestLint

/-- A file or a directory, by its name in the directory that holds it. -/
inductive FileNode where
  | text (name content : String)
  /-- A file whose bytes are no text. -/
  | binary (name : String)
  | directory (name : String) (entries : List FileNode)
  deriving Repr, Inhabited

/-- Why a path cannot be read or written. -/
inductive FileError where
  | notFound
  | notDirectory
  | isDirectory
  | notText
  | nameTooLong
  deriving DecidableEq, Repr, Inhabited

/-- The error as the system words it. -/
def FileError.message : FileError → String
  | .notFound => "No such file or directory (os error 2)"
  | .notDirectory => "Not a directory (os error 20)"
  | .isDirectory => "Is a directory (os error 21)"
  | .notText => "stream did not contain valid UTF-8"
  | .nameTooLong => "File name too long (os error 36)"

namespace FileNode

def name : FileNode → String
  | .text name _ => name
  | .binary name => name
  | .directory name _ => name

def isDirectory : FileNode → Bool
  | .directory _ _ => true
  | _ => false

def isFile (n : FileNode) : Bool :=
  !n.isDirectory

/-- What a directory holds; a file holds nothing. -/
def entries : FileNode → List FileNode
  | .directory _ entries => entries
  | _ => []

def content : FileNode → Except FileError String
  | .text _ content => .ok content
  | .binary _ => .error .notText
  | .directory _ _ => .error .isDirectory

/-- The entries with one more; an entry of the same name gives way. -/
def put (node : FileNode) : List FileNode → List FileNode
  | [] => [node]
  | entry :: rest => if entry.name == node.name then node :: rest else entry :: put node rest

/-- The entries in which that of a name has been changed; where there is none,
a new directory is. -/
def change (name : String) (f : FileNode → FileNode) : List FileNode → List FileNode
  | [] => [f (.directory name [])]
  | entry :: rest => if entry.name == name then f entry :: rest else entry :: change name f rest

/-- A directory to which the node has been added below the directories of these
names, which are made where they are missing. -/
def addTo (node : FileNode) : List String → FileNode → FileNode
  | [], .directory name entries => .directory name (put node entries)
  | segment :: rest, .directory name entries =>
    .directory name (change segment (addTo node rest) entries)
  | _, file => file

/-- A directory with directories of these names below it, each in the one before;
what is there already stays. -/
def withDirectories : List String → FileNode → FileNode
  | segment :: rest, .directory name entries =>
    .directory name (change segment (withDirectories rest) entries)
  | _, node => node

/-! ## Walking -/

mutual

/-- A node and all below it, each under its path; what `leave` names is left
out with all that it holds. -/
def walk (leave : Path → Bool) (path : Path) : FileNode → List (Path × FileNode)
  | .directory name entries =>
    if leave path then []
    else (path, .directory name entries) :: walkAll leave path entries
  | file => if leave path then [] else [(path, file)]

/-- The nodes below a directory. -/
def walkAll (leave : Path → Bool) (parent : Path) : List FileNode → List (Path × FileNode)
  | [] => []
  | entry :: rest =>
    walk leave (parent.join ⟨entry.name⟩) entry ++ walkAll leave parent rest

end

end FileNode

/-- The files below the working directory. -/
structure FileTree where
  root : FileNode
  deriving Inhabited

namespace FileTree

def empty : FileTree := ⟨.directory "" []⟩

/-- The names that a path passes through on its way down from the root. -/
def namesOf (p : Path) : List String :=
  ((p.text.toList.splitOn '/').filter fun s => !s.isEmpty && s != ['.']).map String.ofList

/-- The tree with a directory at a path, and those above it. -/
def addDirectory (tree : FileTree) (p : Path) : FileTree :=
  ⟨FileNode.withDirectories (namesOf p) tree.root⟩

/-- The tree with a file at a path, and the directories above it; without a
text, the file's bytes are no text. -/
def addFile (tree : FileTree) (p : Path) (content : Option String) : FileTree :=
  match (namesOf p).reverse with
  | [] => tree
  | name :: above =>
    let node : FileNode := match content with
      | some text => .text name text
      | none => .binary name
    ⟨node.addTo above.reverse tree.root⟩

/-- A node on the way from the root, with the directories above it, nearest first. -/
structure Place where
  node : FileNode
  above : List FileNode
  deriving Inhabited

def longestName : Nat := 255

/-- The most bytes that a path may have. -/
def longestPath : Nat := 4095

namespace Place

def names (p : Place) : List String :=
  ((p.node :: p.above).dropLast.map (·.name)).reverse

/-- One segment of a path on from a place. -/
def step (p : Place) (segment : String) : Except FileError Place :=
  match p.node with
  | .directory _ entries =>
    if segment == "" || segment == "." then
      .ok p
    else if segment == ".." then
      match p.above with
      | parent :: rest => .ok ⟨parent, rest⟩
      | [] => .error .notFound
    else if segment.utf8ByteSize > longestName then
      .error .nameTooLong
    else
      match entries.find? (·.name == segment) with
      | some entry => .ok ⟨entry, p.node :: p.above⟩
      | none => .error .notFound
  | _ => .error .notDirectory

end Place

variable (tree : FileTree)

/-- The segments of a path as the system sees them. -/
def segments (p : Path) : List String :=
  (p.text.toList.splitOn '/').map String.ofList

/-- The place that segments lead to. -/
def follow (segments : List String) : Except FileError Place :=
  segments.foldlM Place.step ⟨tree.root, []⟩

/-- The segments that a path leads along, if the system takes the path: it is not
empty, not too long and, since nothing is known outside the working directory,
not absolute. -/
def segments? (p : Path) : Except FileError (List String) :=
  if p.text.utf8ByteSize > longestPath then .error .nameTooLong
  else if p.text == "" || p.isAbsolute then .error .notFound
  else .ok (segments p)

def resolve (p : Path) : Except FileError Place := do
  tree.follow (← segments? p)

def node? (p : Path) : Option FileNode :=
  (tree.resolve p).toOption.map (·.node)

def pathExists (p : Path) : Bool :=
  (tree.node? p).isSome

def isFile (p : Path) : Bool :=
  (tree.node? p).any (·.isFile)

def read (p : Path) : Except FileError String := do
  let place ← tree.resolve p
  place.node.content

/-- The tree with a text written to the file at the path; its directory must exist. -/
def write (p : Path) (content : String) : Except FileError FileTree := do
  let all ← segments? p
  let name := all.getLastD ""
  let place ← tree.follow all.dropLast
  if place.node.isFile then
    throw .notDirectory
  if name == "" || name == "." || name == ".." then
    throw .isDirectory
  if name.utf8ByteSize > longestName then
    throw .nameTooLong
  if (place.node.entries.find? (·.name == name)).any (·.isDirectory) then
    throw .isDirectory
  return ⟨(FileNode.text name content).addTo place.names tree.root⟩

/-- The texts of all files, each under its path from the working directory. -/
def texts : List (Path × String) :=
  (tree.root.walk (fun _ => false) ⟨""⟩).filterMap fun (p, node) =>
    match node with
    | .text _ content => some (p, content)
    | _ => none

/-- The files of this tree that another tree does not hold with the same text. -/
def changesSince (before : FileTree) : List (Path × String) :=
  let known := before.texts
  tree.texts.filter fun file => !known.contains file

/-- The paths below `root` and the root's own, the root first, without what
`leave` names; nothing if there is no such path. -/
def walk (leave : Path → Bool) (root : Path) : List (Path × FileNode) :=
  match tree.node? root with
  | some node => node.walk leave root
  | none => []

/-- The paths as by `walk`, but the root is never left out. -/
def walkBelow (leave : Path → Bool) (root : Path) : List (Path × FileNode) :=
  match tree.node? root with
  | some node => (root, node) :: FileNode.walkAll leave root node.entries
  | none => []

end FileTree

end TestLint
