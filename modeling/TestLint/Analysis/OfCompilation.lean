import TestLint.Check.OfRule
import TestLint.Config.Basic
import TestLint.Duplicate.Detection

/-!
# The analysis of a compilation

All rules that are on for a file are checked, what its directives silence is
dropped, and the rest is reported with the configured severities, ordered by
place and rule.  Duplicates are found once all files have been gone through and
join the file of the later method.
-/

namespace TestLint

/-- The findings of a rule in a file, as they are reported there. -/
def SourceFile.reported (globs : Globs) (file : SourceFile) (config : Config) (rule : Rule)
    (findings : List Finding) : List Diagnostic :=
  match config.severityFor? globs file.path rule with
  | none => []
  | some severity =>
    (findings.filter fun f => !file.directives.silences f.location.line rule).map
      (·.report rule severity)

namespace CheckedFile

/-- What the rules report in a file, but for duplicates. -/
def diagnostics (globs : Globs) (ctx : CheckedFile) (config : Config) : List Diagnostic :=
  Rule.all.flatMap fun rule => ctx.file.reported globs config rule (rule.check ctx)

def candidates (ctx : CheckedFile) : List Duplicate.Candidate :=
  (ctx.types.filter ctx.isTestClass).flatMap fun t =>
    (t.methods.filter ctx.isTestMethod).map (.ofMethod ctx.file t)

def stats (ctx : CheckedFile) : FileStats where
  testClasses := ctx.types.countP fun t => ctx.has t.attributes .testClass
  testMethods := ctx.methods.countP ctx.isTestMethod
  dataRows :=
    (ctx.methods.flatMap (·.attributes)).countP fun a => ctx.bind? a == some .dataRow
  assertions := ctx.invocations.countP fun call => (ctx.assertClass? call).isSome

end CheckedFile

namespace Diagnostic

/-- The diagnostic comes no later than the other: by line, column and rule id. -/
def notAfter (a b : Diagnostic) : Bool :=
  a.location.line < b.location.line ||
  (a.location.line == b.location.line &&
    (a.location.column < b.location.column ||
    (a.location.column == b.location.column && a.rule.id ≤ b.rule.id)))

end Diagnostic

structure FileFindings where
  diagnostics : List Diagnostic
  stats : FileStats
  candidates : List Duplicate.Candidate
  deriving Inhabited

namespace Compilation

variable (globs : Globs) (c : Compilation) (config : Config)

def checkFile (framework : Framework) (file : SourceFile) : Run FileFindings := do
  Run.look
  let ctx : CheckedFile := ⟨c, framework, file⟩
  return ⟨ctx.diagnostics globs config, ctx.stats, ctx.candidates⟩

/-- The result of a file, with the pairs of duplicates that belong to it. -/
def fileResult (file : SourceFile) (found : FileFindings) (pairs : List Duplicate.Pair) :
    AnalysisResult :=
  let own := (pairs.filter (·.file == file.id)).map (·.finding)
  let all := found.diagnostics ++ file.reported globs config .avoidDuplicateTestMethods own
  ⟨file.path, all.mergeSort Diagnostic.notAfter, found.stats⟩

/-- The results of all files, in their order; nothing is found where the
framework is not referred to. -/
def analyze : Run (List AnalysisResult) :=
  match Framework.ofCompilation? c with
  | none => pure (c.files.map fun file => ⟨file.path, [], ⟨0, 0, 0, 0⟩⟩)
  | some framework => do
    let found ← c.files.mapM (c.checkFile globs config framework)
    let pairs ← Duplicate.pairs c (found.flatMap (·.candidates))
    return (c.files.zip found).map fun (file, findings) =>
      fileResult globs config file findings pairs

def analyzeSources (parse : Parser) (sources : List (Path × String)) (project : ProjectFacts) :
    Run (List AnalysisResult) := do
  Run.look
  (ofSources parse sources project).analyze globs config

end Compilation

end TestLint
