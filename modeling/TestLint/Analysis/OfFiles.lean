import TestLint.Analysis.OfCompilation
import TestLint.Config.Loading
import TestLint.Files.Project

/-!
# The analysis of a directory or file

Sources that cannot be read are passed over, unless the path names one itself.
-/

namespace TestLint

/-- The directory that a run on a path works in. -/
def FileTree.workDir (tree : FileTree) (path : Path) : Path :=
  if tree.isFile path then
    match path.parent? with
    | some dir => if dir.text == "" then ⟨"."⟩ else dir
    | none => ⟨"."⟩
  else
    path

namespace Compilation

/-- The sources among some files, as far as they can be read. -/
def readable (tree : FileTree) (files : List Path) : List (Path × String) :=
  files.filterMap fun file => (tree.read file).toOption.map (file, ·)

def readSources (tree : FileTree) (path : Path) (ignore : PatternSet) :
    Run (List (Path × String)) :=
  (tree.sourceFiles path ignore).foldlM
    (fun sources file => do
      Run.look
      match tree.read file with
      | .ok text => return sources ++ [(file, text)]
      | .error reason =>
        if tree.isFile path then
          throw (.unreadable file reason.message)
        else
          return sources)
    []

/-- The results of the sources that a path stands for. -/
def analyzePath (globs : Globs) (parse : Parser) (tree : FileTree) (path : Path) (config : Config) :
    Run (List AnalysisResult) := do
  if !tree.pathExists path then
    throw (.pathNotFound path)
  match Config.ignoredBy config.ignore with
  | .error e => throw (.badConfiguration e.message)
  | .ok ignore =>
    let sources ← readSources tree path ignore
    analyzeSources globs config parse sources (tree.projectFacts path)

end Compilation

end TestLint
