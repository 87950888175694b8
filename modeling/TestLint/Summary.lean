import TestLint.Diagnostic

/-!
# Totals of a run

What the summaries of the reports count over all files.  Counters are machine
words; a sum that is larger stops the program.
-/

namespace TestLint

/-- The totals over the files of a run. -/
structure Summary where
  files : Nat
  filesWithDiagnostics : Nat
  testClasses : Nat
  testMethods : Nat
  dataRows : Nat
  assertions : Nat
  errors : Nat
  warnings : Nat
  infos : Nat
  fixable : Nat
  duplicates : Nat
  deriving DecidableEq, Repr, Inhabited

namespace Summary

/-- The sum of a counter over the results. -/
private def total (results : List AnalysisResult) (counter : AnalysisResult → Nat) :
    Except Overflow Nat :=
  let sum := results.foldl (fun sum r => sum + counter r) 0
  if sum < Position.wordSize then .ok sum else .error ⟨⟩

def ofResults (results : List AnalysisResult) : Except Overflow Summary := do
  let testClasses ← total results (·.stats.testClasses)
  let testMethods ← total results (·.stats.testMethods)
  let dataRows ← total results (·.stats.dataRows)
  let assertions ← total results (·.stats.assertions)
  let errors ← total results (·.count .error)
  let warnings ← total results (·.count .warning)
  let infos ← total results (·.count .info)
  let fixable ← total results fun r => r.diagnostics.countP (·.fix.isSome)
  let duplicates ← total results fun r =>
    r.diagnostics.countP (·.rule = .avoidDuplicateTestMethods)
  return {
    files := results.length
    filesWithDiagnostics := results.countP fun r => !r.diagnostics.isEmpty
    testClasses, testMethods, dataRows, assertions, errors, warnings, infos, fixable, duplicates }

def diagnostics (s : Summary) : Nat :=
  s.errors + s.warnings + s.infos

end Summary

end TestLint
