import TestLint.Path

/-!
# Runs that can be cancelled

An analysis looks from time to time whether it has been cancelled, and stops
with an error when it sees so.  When that happens is an input of the run: the
number of looks that still see nothing.  A run that is never cancelled has no
such number.
-/

namespace TestLint

/-- Why an analysis gives no results. -/
inductive AnalysisError where
  /-- A file cannot be read, for a reason that the system gives. -/
  | unreadable (path : Path) (reason : String)
  | unparsable (path : Path) (reason : String)
  | badConfiguration (reason : String)
  | cancelled
  | pathNotFound (path : Path)
  deriving DecidableEq, Repr, Inhabited

namespace AnalysisError

def message : AnalysisError → String
  | .unreadable path reason => "IO error reading " ++ path.text ++ ": " ++ reason
  | .unparsable path reason => "Parse error in " ++ path.text ++ ": " ++ reason
  | .badConfiguration reason => "Configuration error: " ++ reason
  | .cancelled => "Analysis cancelled"
  | .pathNotFound path => "Path not found: " ++ path.text

/-- The error in words, followed by what it was caused by. -/
def causes (e : AnalysisError) : List String :=
  match e with
  | .unreadable _ reason => [e.message, reason]
  | _ => [e.message]

end AnalysisError

/-- How many more looks see that the run goes on; `none` if all do. -/
abbrev Patience := Option Nat

/-- A computation that may be cancelled on its way. -/
abbrev Run := StateT Patience (Except AnalysisError)

namespace Run

/-- Looks whether the run has been cancelled. -/
def look : Run Unit := fun
  | none => .ok ((), none)
  | some 0 => .error .cancelled
  | some (left + 1) => .ok ((), some left)

/-- The result of a run that is cancelled when its patience ends. -/
def result (patience : Patience) (run : Run α) : Except AnalysisError α :=
  (StateT.run run patience).map (·.1)

end Run

end TestLint
