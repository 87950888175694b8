import TestLint.Analysis.Run
import TestLint.Compilation
import TestLint.Duplicate.Body
import TestLint.Duplicate.Distance
import TestLint.Text.Decimal

/-!
# Duplicate test methods

Two test methods of one type are duplicates when their normalized bodies are
equal or nearly so.  Candidates are gathered from all files, in any order;
each pair is found once, the method that stands earlier by path and position
being its first.
-/

namespace TestLint.Duplicate

/-- A test method that is compared with the others of its type. -/
structure Candidate where
  name : String
  /-- The full name of the type; all parts of a type share it. -/
  containingType : String
  filePath : Path
  nameLocation : Location
  handle : SyntaxHandle
  deriving DecidableEq, Repr, Inhabited

namespace Candidate

def ofMethod (file : SourceFile) (t : TypeDeclaration) (m : Method) : Candidate :=
  ⟨m.name, t.fullName, file.path, m.nameLocation, m.handle⟩

/-- The candidate stands no later than the other: by path, then by position. -/
def notAfter (a b : Candidate) : Bool :=
  match a.filePath.compare b.filePath with
  | .lt => true
  | .eq => a.handle.start ≤ b.handle.start
  | .gt => false

/-- The normalized body of the method; empty where its node is not found. -/
def body (c : Compilation) (m : Candidate) : String :=
  match c.nodeAt? m.handle, c.file? m.handle.file with
  | some node, some file => normalizedBody file.source node
  | _, _ => ""

end Candidate

/-- Two methods of one type whose bodies match. -/
structure Pair where
  first : Candidate
  second : Candidate
  score : Score
  deriving DecidableEq, Repr, Inhabited

namespace Pair

/-- The file that the pair is reported in: that of the second method. -/
def file (p : Pair) : FileId :=
  p.second.handle.file

/-- What is found at the second method, with a pointer to the first. -/
def finding (p : Pair) : Finding :=
  Finding.new p.second.nameLocation
      ("Test method '" ++ p.second.name ++ "' has the same implementation as '" ++
        p.first.name ++ "'")
    |>.withLocation (p.first.nameLocation.inFile p.first.filePath)
    |>.withProperty "firstMethod" p.first.name
    |>.withProperty "secondMethod" p.second.name
    |>.withProperty "similarity" (Text.fixedPlaces 4 p.score.toFloat)
    |>.withSuggestion ("Merge the two methods into one data-driven test, " ++
        "or change one of them to test something else")

end Pair

/-- The candidates of one type, in their order, with their bodies. -/
def ranked (c : Compilation) (methods : List Candidate) : List (Candidate × String) :=
  (methods.mergeSort Candidate.notAfter).map fun m => (m, m.body c)

/-- The pair of two candidates, if they are duplicates. Methods of one name are
overloads or repeated declarations, not duplicates. -/
def pair? (first second : Candidate × String) : Option Pair :=
  if first.1.name = second.1.name then
    none
  else
    let score := Score.ofTexts first.2 second.2
    if score.isNear || first.2 == second.2 then
      some ⟨first.1, second.1, score⟩
    else
      none

/-- The pairs of a list, each candidate with all later ones. -/
def pairsOf : List (Candidate × String) → Run (List Pair)
  | [] => pure []
  | first :: rest => do
    Run.look
    let later ← pairsOf rest
    return rest.filterMap (pair? first) ++ later

def typeNames (candidates : List Candidate) : List String :=
  ((candidates.map (·.containingType)).mergeSort fun a b => a ≤ b).eraseDups

def pairsOfType (c : Compilation) (candidates : List Candidate) (typeName : String) :
    Run (List Pair) := do
  Run.look
  let methods := candidates.filter (·.containingType == typeName)
  if methods.length < 2 then
    return []
  pairsOf (ranked c methods)

/-- All pairs of duplicates, ordered by type and by the places of both methods. -/
def pairs (c : Compilation) (candidates : List Candidate) : Run (List Pair) := do
  let found ← (typeNames candidates).mapM (pairsOfType c candidates)
  return found.flatten

end TestLint.Duplicate
