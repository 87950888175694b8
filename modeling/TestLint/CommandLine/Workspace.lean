import TestLint.CommandLine.Outcome
import TestLint.Syntax.Encoded

/-!
# What the command line works on

The files below the working directory and the trees of their sources, as the
parser hands them over in one JSON value.
-/

namespace TestLint.CommandLine

/-- Files, and the trees of their sources. -/
structure Workspace where
  workDir : Path
  files : FileTree
  /-- The trees, each under the hash of its source. -/
  trees : Json

namespace Workspace

/-- A file: its path, and its text where it is one. -/
private def fileOfJson? (value : Json) : Option (Path × Option String) := do
  let path ← value.required "path" Json.text?
  let source ← value.optional "source" Json.text?
  some (⟨path⟩, source)

def ofJson? (value : Json) : Option Workspace := do
  let workDir ← value.withDefault "workDir" "." Json.text?
  let directories ← value.withDefault "dirs" [] (Json.listOf Json.text?)
  let files ← value.required "files" (Json.listOf fileOfJson?)
  let trees ← value.required "trees" some
  let tree := directories.foldl (fun tree dir => tree.addDirectory ⟨dir⟩) FileTree.empty
  let tree := files.foldl (fun tree (path, text) => tree.addFile path text) tree
  some ⟨⟨workDir⟩, tree, trees⟩

/-- The outcome of a command line on the workspace. -/
def run (w : Workspace) (color : Bool) (arguments : List String) : Outcome :=
  CommandLine.run
    { parse := Tree.inTable w.trees, json := .strict, globs := Glob.matcher?, color
      workDir := w.workDir } w.files arguments

end Workspace

end TestLint.CommandLine
