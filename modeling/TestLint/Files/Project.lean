import TestLint.Files.Tree
import TestLint.Glob.PatternSet
import TestLint.Project.Facts

/-!
# The files of a project

Which files a project consists of: the sources below a directory, and the
project files there or, where there are none, in the nearest directory above
that has some.  What a build leaves behind does not count.
-/

namespace TestLint

namespace Path

/-- The path is named like what a build or a store of versions leaves behind. -/
def isBuildOutput (p : Path) : Bool :=
  match p.fileName? with
  | some name => name == "bin" || name == "obj" || name == ".git"
  | none => false

end Path

namespace FileTree

variable (tree : FileTree)

/-- The source files at or below a path, in the order of their paths. Files are
ignored by their whole path or by the part below the root; a root that is a
file is taken as it is. -/
def sourceFiles (root : Path) (ignore : PatternSet) : List Path :=
  if tree.isFile root then
    [root]
  else
    let files := (tree.walkBelow Path.isBuildOutput root).filter (·.2.isFile)
    let sources := (files.map (·.1)).filter fun p =>
      p.extension? == some "cs" && !ignore.isMatch p &&
        !ignore.isMatch (p.relativeTo root)
    sources.mergeSort fun a b => a.compare b != .gt

/-- The project files among some files, as far as they can be read. -/
private def projectsAmong (files : List (Path × FileNode)) : List (Path × String) :=
  files.filterMap fun (p, node) =>
    if p.extension? == some "csproj" then
      node.content.toOption.map (p, ·)
    else
      none

/-- The project files of the nearest directory above that has some; the search
ends at what is no directory. -/
def projectsAbove : List Path → List (Path × String)
  | [] => []
  | dir :: rest =>
    match tree.node? dir with
    | some (.directory _ entries) =>
      let named := entries.map fun entry => (dir.join ⟨entry.name⟩, entry)
      let found := named.filter fun (p, _) => p.extension? == some "csproj"
      if found.isEmpty then projectsAbove rest else projectsAmong found
    | _ => []

/-- What the project files for a path say. -/
def projectFacts (root : Path) : ProjectFacts :=
  let dir := if tree.isFile root then root.parent?.getD ⟨"."⟩ else root
  let below := projectsAmong (tree.walk Path.isBuildOutput dir)
  .ofProjects (if below.isEmpty then tree.projectsAbove dir.ancestors.tail else below)

end FileTree

end TestLint
