import TestLint.Report.Sarif

/-!
# The text form of results

The lines that are printed for people, plain or with terminal colours.  A
padded text is padded before it is coloured, so the escapes do not disturb the
columns.
-/

namespace TestLint.Report.Console

/-- How a text is set off on a terminal. -/
inductive Style where
  | bold
  | dimmed
  | underline
  | red
  | green
  | yellow
  | blue
  deriving DecidableEq, Repr, Inhabited

def Style.code : Style → String
  | .bold => "1"
  | .dimmed => "2"
  | .underline => "4"
  | .red => "31"
  | .green => "32"
  | .yellow => "33"
  | .blue => "34"

/-- The text with `start` again behind each reset of the terminal that it holds,
so that a text with escapes of its own keeps its styles to the end. -/
def resume (start : List Char) : List Char → List Char
  | '\x1b' :: '[' :: '0' :: 'm' :: rest =>
    '\x1b' :: '[' :: '0' :: 'm' :: (start ++ resume start rest)
  | c :: rest => c :: resume start rest
  | [] => []

/-- A text in styles, the styles in the order of the escape sequence. -/
def paint (color : Bool) (styles : List Style) (text : String) : String :=
  if color then
    let start := "\x1b[" ++ ";".intercalate (styles.map Style.code) ++ "m"
    start ++ Text.onString (resume start.toList) text ++ "\x1b[0m"
  else
    text

/-- The text with blanks behind it up to a width. -/
def padRight (width : Nat) (text : String) : String :=
  text ++ String.ofList (List.replicate (width - text.length) ' ')

/-- The text with blanks before it up to a width. -/
def padLeft (width : Nat) (text : String) : String :=
  String.ofList (List.replicate (width - text.length) ' ') ++ text

/-- The text of lines, each with its line end. -/
def ofLines (lines : List String) : String :=
  String.join (lines.map (· ++ "\n"))

def severityStyles : Severity → List Style
  | .error => [.bold, .red]
  | .warning => [.yellow]
  | .info => [.blue]

def diagnosticLines (color verbose : Bool) (d : Diagnostic) : List String :=
  let place := padLeft 8 s!"{d.location.line}:{d.location.column}"
  let severity := padRight 7 d.severity.name
  let head :=
    "  " ++ paint color [.dimmed] place ++ "  " ++
      paint color (severityStyles d.severity) severity ++ " " ++ d.message ++ " " ++
      paint color [.dimmed] d.rule.id
  let seeLine (loc : Location) : String :=
    let file := match loc.file with
      | some f => f.text ++ ":"
      | none => ""
    "            see " ++ file ++ s!"{loc.line}:{loc.column}"
  let details :=
    d.additionalLocations.map seeLine ++
    (match d.suggestion with
      | some s => ["            -> " ++ s]
      | none => []) ++
    (if d.fix.isSome then ["            (fixable with --fix)"] else [])
  head :: if verbose then details else []

/-- The lines of a file: none for a file without diagnostics. -/
def fileLines (color verbose : Bool) (r : AnalysisResult) : List String :=
  if r.diagnostics.isEmpty then
    []
  else
    "" :: paint color [.bold, .underline] r.filePath.text ::
      r.diagnostics.flatMap (diagnosticLines color verbose)

def summaryLines (color : Bool) (s : Summary) : List String :=
  let total := s.diagnostics
  if total = 0 then
    let counts := s!"{s.testClasses} test classes, {s.testMethods} test methods"
    ["", paint color [.green] s!"No problems found in {s.files} files ({counts})"]
  else
    let counts :=
      s!"{total} problems ({s.errors} errors, {s.warnings} warnings, {s.infos} info) in " ++
      s!"{s.filesWithDiagnostics} of {s.files} files"
    let styles : List Style := if s.errors > 0 then [.bold, .red] else [.bold, .yellow]
    ["", paint color styles counts] ++
    (if s.duplicates > 0 then [s!"  {s.duplicates} duplicate test method pairs"] else []) ++
    (if s.fixable > 0 then [s!"  {s.fixable} fixable with the --fix option"] else [])

def report (color verbose : Bool) (results : List AnalysisResult) (s : Summary) : String :=
  ofLines (results.flatMap (fileLines color verbose) ++ summaryLines color s)

/-- One line per diagnostic. -/
def quietLines (r : AnalysisResult) : List String :=
  r.diagnostics.map fun d =>
    s!"{r.filePath.text}:{d.location.line}:{d.location.column}: {d.severity.name} {d.rule.id} " ++
      d.message

def ruleTable (verbose : Bool) : String :=
  let row (id name severity enabled fixable : String) : String :=
    padRight 12 id ++ " " ++ padRight 52 name ++ " " ++ padRight 8 severity ++ " " ++
      padRight 8 enabled ++ " " ++ fixable
  ofLines <| row "ID" "NAME" "SEVERITY" "DEFAULT" "FIX" :: Rule.all.flatMap fun rule =>
    row rule.id rule.name rule.defaultSeverity.name
      (if rule.enabledByDefault then "on" else "off") (if rule.isFixable then "yes" else "") ::
    if verbose then [s!"             {rule.title} ({rule.category.name})"] else []

end TestLint.Report.Console
