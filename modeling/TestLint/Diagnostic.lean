import TestLint.Path
import TestLint.Rule
import TestLint.Text.Position

/-!
# Diagnostics

What a check reports: a rule, a message and a place, with the fix if the
check knows one.  A fix is a list of text edits that belong together.
-/

namespace TestLint

/-- A place in a source: lines and byte columns from 1, the end exclusive. -/
structure Location where
  line : Nat
  column : Nat
  endLine : Option Nat
  endColumn : Option Nat
  /-- The file, where it is not the one the diagnostic is reported in. -/
  file : Option Path
  deriving DecidableEq, Repr, Inhabited

namespace Location

/-- The place without an end. -/
def point (line column : Nat) : Location :=
  ⟨line, column, none, none, none⟩

def between (start stop : Position) : Location :=
  ⟨start.line, start.column, some stop.line, some stop.column, none⟩

/-- The place of the bytes from `start` to `stop` of a source. -/
def ofOffsets (start stop : Nat) (source : List Char) : Location :=
  between (Position.ofOffset start source) (Position.ofOffset stop source)

/-- The same place, said to be in a file. -/
def inFile (loc : Location) (file : Path) : Location :=
  { loc with file := some file }

/-- The last line: the line of the place if it has no end. -/
def lastLine (loc : Location) : Nat :=
  loc.endLine.getD loc.line

/-- The end column: the column of the place if it has no end. -/
def lastColumn (loc : Location) : Nat :=
  loc.endColumn.getD loc.column

end Location

/-- The replacement of a range of a source by a text. -/
structure TextEdit where
  startLine : Nat
  startColumn : Nat
  endLine : Nat
  endColumn : Nat
  replacement : String
  deriving DecidableEq, Repr, Inhabited

namespace TextEdit

def replace (loc : Location) (text : String) : TextEdit :=
  ⟨loc.line, loc.column, loc.lastLine, loc.lastColumn, text⟩

/-- Replaces all from the start of one place to the end of another. -/
def replaceSpan (start stop : Location) (text : String) : TextEdit :=
  ⟨start.line, start.column, stop.lastLine, stop.lastColumn, text⟩

def insert (line column : Nat) (text : String) : TextEdit :=
  ⟨line, column, line, column, text⟩

end TextEdit

/-- Edits that belong together, and what they do. -/
structure Fix where
  description : String
  edits : List TextEdit
  deriving DecidableEq, Repr, Inhabited

/-- What a check finds, before it is said under which rule. -/
structure Finding where
  location : Location
  message : String
  additionalLocations : List Location
  /-- Named facts about the finding, ordered by name. -/
  properties : List (String × String)
  suggestion : Option String
  fix : Option Fix
  deriving DecidableEq, Repr, Inhabited

/-- A finding reported under a rule. -/
structure Diagnostic extends Finding where
  rule : Rule
  severity : Severity
  deriving DecidableEq, Repr, Inhabited

/-- Puts a value under a name into a list that is ordered by name. -/
def insertByName (key : String) (value : α) : List (String × α) → List (String × α)
  | [] => [(key, value)]
  | (k, v) :: rest =>
    if key < k then (key, value) :: (k, v) :: rest
    else if key = k then (key, value) :: rest
    else (k, v) :: insertByName key value rest

namespace Finding

def new (location : Location) (message : String) : Finding :=
  ⟨location, message, [], [], none, none⟩

def withSuggestion (f : Finding) (text : String) : Finding :=
  { f with suggestion := some text }

def withFix (f : Finding) (fix : Fix) : Finding :=
  { f with fix := some fix }

def withLocation (f : Finding) (loc : Location) : Finding :=
  { f with additionalLocations := f.additionalLocations ++ [loc] }

def withProperty (f : Finding) (key value : String) : Finding :=
  { f with properties := insertByName key value f.properties }

def report (f : Finding) (rule : Rule) (severity : Severity) : Diagnostic :=
  { f with rule, severity }

end Finding

/-- What was counted in one file. -/
structure FileStats where
  testClasses : Nat
  testMethods : Nat
  dataRows : Nat
  assertions : Nat
  deriving DecidableEq, Repr, Inhabited

/-- The findings in one file, in the order of their places. -/
structure AnalysisResult where
  filePath : Path
  diagnostics : List Diagnostic
  stats : FileStats
  deriving DecidableEq, Repr, Inhabited

def AnalysisResult.count (r : AnalysisResult) (severity : Severity) : Nat :=
  r.diagnostics.countP (·.severity = severity)

end TestLint
