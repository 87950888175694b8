import TestLint.Analysis.OfFiles
import TestLint.CommandLine.Arguments
import TestLint.Edit
import TestLint.Report.Console
import TestLint.Suppression.External

/-!
# What a command does

A command prints its results, ends with a code and may change files: `0` if all
is well, `1` if an analysis finds what it should fail for, `2` if the command
cannot be carried out, `101` if it stops at a sum that is too large.
-/

namespace TestLint.CommandLine

open Report.Console (paint ofLines)

/-- What a command works with, its files aside. -/
structure Surroundings where
  parse : Parser
  json : Json.Codec
  globs : Globs
  /-- The terminal shows colours. -/
  color : Bool
  workDir : Path

/-- What a command leaves behind. -/
structure Outcome where
  code : Nat
  stdout : String
  stderr : String
  files : FileTree
  deriving Inhabited

/-- Why a command cannot be carried out. -/
inductive Failure where
  | noPath
  | pathNotFound (path : Path)
  | badConfig (reason : ConfigError)
  | notAnalyzed (path : Path) (reason : AnalysisError)
  | notFixed (reason : AnalysisError)
  | notWritten (path : Path) (reason : FileError)
  | notRead (path : Path) (reason : FileError)
  | badDiagnostics (path : Path)
  | overflow
  deriving DecidableEq, Repr, Inhabited

namespace Failure

/-- The failure in words, followed by what it was caused by. -/
def causes : Failure → List String
  | .noPath => ["a path to analyze is required"]
  | .pathNotFound path => ["Path not found: " ++ path.text]
  | .badConfig reason => reason.causes
  | .notAnalyzed path reason => ("Failed to analyze " ++ path.text) :: reason.causes
  | .notFixed reason => reason.causes
  | .notWritten path reason => ["Failed to write " ++ path.text, reason.message]
  | .notRead path reason => ["Failed to read " ++ path.text, reason.message]
  | .badDiagnostics path => ["Invalid diagnostics JSON in " ++ path.text]
  | .overflow => ["attempt to add with overflow"]

/-- What the failure leaves behind, `notice` having been printed before. -/
def outcome (f : Failure) (color : Bool) (notice : String) (files : FileTree) : Outcome where
  code := if f = .overflow then 101 else 2
  stdout := ""
  stderr :=
    let label := if f = .overflow then "" else paint color [.bold, .red] "Error" ++ ": "
    notice ++ label ++ ": ".intercalate f.causes ++ "\n"
  files

end Failure

/-! ## Analysing -/

/-- Applies the fixes of one file; gives the files after it and the number of
fixes that have been applied. -/
def fixFile (files : FileTree) (path : Path) (fixes : List Fix) :
    Except Failure (FileTree × Nat) := do
  let ioError (reason : FileError) : Failure := .notFixed (.unreadable path reason.message)
  let source ← (files.read path).mapError ioError
  let outcome ← (Edit.applyFixes source fixes).mapError fun _ => .overflow
  if outcome.applied = 0 then
    return (files, 0)
  else
    let files ← (files.write path outcome.content).mapError ioError
    return (files, outcome.applied)

/-- Applies the fixes of file after file.  Those written before a failure stay
as they are then. -/
def fixAll (files : FileTree) : List (Path × List Fix) → FileTree × Except Failure Nat
  | [] => (files, .ok 0)
  | (path, fixes) :: rest =>
    match fixFile files path fixes with
    | .error failure => (files, .error failure)
    | .ok (files, applied) =>
      let (files, more) := fixAll files rest
      (files, more.map (applied + ·))

def analyzed (s : Surroundings) (files : FileTree) (path : Path) (config : Config) :
    Except Failure (List AnalysisResult) :=
  match (Compilation.analyzePath s.globs s.parse files path config).result none with
  | .ok results => .ok results
  | .error reason => .error (.notAnalyzed path reason)

def shown (json : Json.Codec) (options : AnalysisOptions) (color : Bool)
    (results : List AnalysisResult) : Except Failure String := do
  let summary ← (Summary.ofResults results).mapError fun _ => .overflow
  return match options.form with
  | .sarif => Report.Sarif.log json results ++ "\n"
  | .json => Report.withSummary json .pretty results summary ++ "\n"
  | .console =>
    if options.quiet then
      ofLines (results.flatMap Report.Console.quietLines)
    else
      Report.Console.report color options.verbose results summary

def exitCode (denyWarnings : Bool) (results : List AnalysisResult) : Nat :=
  let failing := results.any fun r =>
    r.diagnostics.any fun d => d.severity == .error || denyWarnings
  if failing then 1 else 0

def fixedNotice (color : Bool) (applied : Nat) : String :=
  paint color [.bold, .green] "Fixed" ++ s!": applied {applied} fixes\n"

def analyze (s : Surroundings) (files : FileTree) (path : Option Path)
    (options : AnalysisOptions) : Outcome :=
  let color := s.color && !options.noColor
  let start : Except Failure (Path × Config × List AnalysisResult) := do
    let some path := path | throw .noPath
    if !files.pathExists path then
      throw (.pathNotFound path)
    let config ←
      (Config.load s.json files (files.workDir path) options.config).mapError .badConfig
    let results ← analyzed s files path config
    return (path, config, results)
  match start with
  | .error failure => failure.outcome color "" files
  | .ok (path, config, results) =>
    let finish (files : FileTree) (notice : String) (results : List AnalysisResult) : Outcome :=
      match shown s.json options color results with
      | .ok stdout => ⟨exitCode options.denyWarnings results, stdout, notice, files⟩
      | .error failure => failure.outcome color notice files
    if !options.fix then
      finish files "" results
    else
      match fixAll files (Edit.fixesByFile results) with
      | (fixed, .error failure) => failure.outcome color "" fixed
      | (fixed, .ok applied) =>
        if applied = 0 then
          finish fixed "" results
        else
          let notice := if options.quiet then "" else fixedNotice color applied
          match analyzed s fixed path config with
          | .ok results => finish fixed notice results
          | .error failure => failure.outcome color notice fixed

/-! ## The other commands -/

/-- Writes a configuration to start with, unless there is one. -/
def start (s : Surroundings) (files : FileTree) (dir : Option Path) : Outcome :=
  let shownPath := (dir.getD s.workDir).join ⟨configFileName⟩
  let path := (dir.getD ⟨""⟩).join ⟨configFileName⟩
  if files.pathExists path then
    ⟨0, "",
      paint s.color [.yellow] "Warning" ++ ": " ++ shownPath.text ++
        " already exists; use --dir to write elsewhere or remove it first\n",
      files⟩
  else
    match files.write path starterConfig with
    | .error reason => (Failure.notWritten shownPath reason).outcome s.color "" files
    | .ok written =>
      ⟨0, paint s.color [.bold, .green] "Created" ++ " " ++ shownPath.text ++ "\n", "", written⟩

/-- The text that shows which diagnostics of another tool do not apply. -/
def shownSuppressed (json? : Option Json.Codec) (count : Nat) (suppressed : List Suppressed) :
    String :=
  match json? with
  | some json => json.pretty (.ofList Suppressed.toJson suppressed) ++ "\n"
  | none =>
    let lines := suppressed.map fun s =>
      let d := s.diagnostic
      s!"{d.path.text}:{d.line}:{d.column}: {d.id} suppressed: {s.suppressor.justification}"
    ofLines (lines ++ [s!"{suppressed.length} of {count} diagnostics suppressed"])

/-- Tells which diagnostics of another tool do not apply. -/
def suppress (s : Surroundings) (files : FileTree) (path root : Path) (json : Bool) : Outcome :=
  let text : Except Failure String := do
    let content ← (files.read path).mapError (.notRead path)
    let some diagnostics := ExternalDiagnostic.readAll? s.json content
      | throw (.badDiagnostics path)
    let config ← (Config.load s.json files root none).mapError .badConfig
    let ignore ← (Config.ignoredBy config.ignore).mapError .badConfig
    let sources := Compilation.readable files (files.sourceFiles root ignore)
    let compilation := Compilation.ofSources s.parse sources (files.projectFacts root)
    let suppressed := compilation.suppressed diagnostics
    return shownSuppressed (if json then some s.json else none) diagnostics.length suppressed
  match text with
  | .ok stdout => ⟨0, stdout, "", files⟩
  | .error failure => failure.outcome s.color "" files

def versionText : String :=
  Report.Sarif.toolName ++ " " ++ Report.Sarif.toolVersion ++ "\n"

def Command.outcome (s : Surroundings) (files : FileTree) : Command → Outcome
  | .version => ⟨0, versionText, "", files⟩
  | .analyze path options => CommandLine.analyze s files path options
  | .start dir => CommandLine.start s files dir
  | .rules verbose => ⟨0, Report.Console.ruleTable verbose, "", files⟩
  | .suppress diagnostics root json => CommandLine.suppress s files diagnostics root json

def run (s : Surroundings) (files : FileTree) (arguments : List String) : Outcome :=
  match Command.ofArguments? arguments with
  | some command => command.outcome s files
  | none => ⟨2, "", "error: the arguments are not understood\n", files⟩

end TestLint.CommandLine
