import TestLint.Diagnostic

/-!
# Applying edits

An edit is resolved to a range of byte offsets of the source and then spliced
in.  `apply` takes the edits of one fix, which may not overlap; `applyFixes`
takes as many fixes as fit together, each as a whole or not at all.  Edits are
spliced from the last one to the first, so that the offsets of those still to
come stay valid.
-/

namespace TestLint

/-- Why edits cannot be applied; each cause tells the position of the edit. -/
inductive EditError where
  | outOfRange (line column : Nat)
  | invertedRange (line column : Nat)
  | overlap (line column : Nat)
  deriving DecidableEq, Repr, Inhabited

def EditError.message : EditError → String
  | .outOfRange line column => s!"edit position {line}:{column} is outside the file"
  | .invertedRange line column => s!"edit at {line}:{column} ends before it starts"
  | .overlap line column => s!"edits of one fix overlap at {line}:{column}"

/-- Why edits are not applied: they are refused with a cause, or the program
stops at a position whose column is too large for a machine word. -/
inductive EditFailure where
  | refused (cause : EditError)
  | overflow
  deriving DecidableEq, Repr, Inhabited

/-- The byte offset of a position.  Refused is a line or column 0, a line that
the text does not have, and an offset beyond the line's newline or inside a
character. -/
def Position.offset? (p : Position) (cs : List Char) : Except EditFailure Nat :=
  let refused : Except EditFailure Nat := .error (.refused (.outOfRange p.line p.column))
  if p.line = 0 ∨ p.column = 0 then
    refused
  else
    match rowStart? (p.line - 1) cs with
    | none => refused
    | some start =>
      let offset := start + (p.column - 1)
      if wordSize ≤ offset then
        .error .overflow
      else if offset ≤ start + rowLength (Text.dropBytes start cs) ∧ Text.isBoundary offset cs then
        .ok offset
      else
        refused

/-- The bytes from `start` up to `stop`. -/
structure ByteRange where
  start : Nat
  stop : Nat
  deriving DecidableEq, Repr, Inhabited

namespace ByteRange

/-- The two share a byte, or one is an insertion point strictly inside the other. -/
def overlaps (a b : ByteRange) : Bool :=
  a.start < b.stop && b.start < a.stop

/-- The first comes no later than the second, by start and then by end. -/
def le (a b : ByteRange) : Bool :=
  a.start < b.start || (a.start == b.start && a.stop ≤ b.stop)

end ByteRange

/-- A resolved edit: a range and the text that takes its place. -/
structure Splice where
  range : ByteRange
  text : List Char
  deriving DecidableEq, Repr, Inhabited

namespace Splice

/-- The source with the range replaced. -/
def apply (source : List Char) (s : Splice) : List Char :=
  Text.takeBytes s.range.start source ++ s.text ++ Text.dropBytes s.range.stop source

/-- The source with all ranges replaced, the last one first; of insertions at
one point the first in the list is made first. -/
def applyAll (source : List Char) (splices : List Splice) : List Char :=
  (splices.mergeSort fun a b => b.range.le a.range).foldl apply source

end Splice

namespace TextEdit

/-- The range of the source that the edit replaces. -/
def range? (source : List Char) (e : TextEdit) : Except EditFailure ByteRange := do
  let start ← (Position.mk e.startLine e.startColumn).offset? source
  let stop ← (Position.mk e.endLine e.endColumn).offset? source
  if stop < start then
    .error (.refused (.invertedRange e.startLine e.startColumn))
  else
    .ok ⟨start, stop⟩

/-- The edit, resolved. -/
def splice? (source : List Char) (e : TextEdit) : Except EditFailure Splice :=
  (e.range? source).map fun range => ⟨range, e.replacement.toList⟩

end TextEdit

namespace Edit

/-- The edits resolved in order, none overlapping one of `taken` or an earlier one. -/
def resolve (source : List Char) (taken : List Splice) :
    List TextEdit → Except EditFailure (List Splice)
  | [] => .ok taken
  | e :: rest => do
    let s ← e.splice? source
    if taken.any fun t => t.range.overlaps s.range then
      .error (.refused (.overlap e.startLine e.startColumn))
    else
      resolve source (taken ++ [s]) rest

/-- The source with all edits made. -/
def apply (source : String) (edits : List TextEdit) : Except EditFailure String := do
  let splices ← resolve source.toList [] edits
  .ok (String.ofList (Splice.applyAll source.toList splices))

end Edit

namespace Fix

/-- Line and column of the fix's first edit; `(0, 0)` without edits. -/
def startPosition (f : Fix) : Nat × Nat :=
  let earlier (a b : Nat × Nat) : Nat × Nat :=
    if b.1 < a.1 || (b.1 == a.1 && b.2 < a.2) then b else a
  match f.edits.map fun e => (e.startLine, e.startColumn) with
  | [] => (0, 0)
  | first :: rest => rest.foldl earlier first

/-- The fix begins no later than the other. -/
def startsBefore (a b : Fix) : Bool :=
  let p := a.startPosition
  let q := b.startPosition
  p.1 < q.1 || (p.1 == q.1 && p.2 ≤ q.2)

def splices? (source : List Char) (f : Fix) : Except EditFailure (List Splice) :=
  f.edits.mapM (·.splice? source)

/-- Two of the splices overlap. -/
def clash : List Splice → Bool
  | [] => false
  | s :: rest => rest.any (fun t => t.range.overlaps s.range) || clash rest

/-- The splices of a fix that can be made beside those already `accepted`; none
if an edit is refused or two ranges overlap. -/
def fitting? (source : List Char) (accepted : List Splice) (f : Fix) :
    Except Overflow (Option (List Splice)) :=
  match f.splices? source with
  | .error .overflow => .error ⟨⟩
  | .error (.refused _) => .ok none
  | .ok splices =>
    if clash splices || splices.any fun s => accepted.any fun t => t.range.overlaps s.range then
      .ok none
    else
      .ok (some splices)

end Fix

structure FixOutcome where
  content : String
  applied : Nat
  skipped : Nat
  deriving DecidableEq, Repr, Inhabited

namespace Edit

/-- The accepted splices and the numbers of fixes taken and left out. -/
structure Selection where
  accepted : List Splice
  applied : Nat
  skipped : Nat
  deriving DecidableEq, Repr, Inhabited

/-- Takes a fix in if it fits, else leaves it out. -/
def select (source : List Char) (s : Selection) (f : Fix) : Except Overflow Selection := do
  match ← f.fitting? source s.accepted with
  | some splices => return { s with accepted := s.accepted ++ splices, applied := s.applied + 1 }
  | none => return { s with skipped := s.skipped + 1 }

/-- The source with as many fixes applied as fit together, taken in the order
of their first edits. -/
def applyFixes (source : String) (fixes : List Fix) : Except Overflow FixOutcome := do
  let s ← (fixes.mergeSort Fix.startsBefore).foldlM (select source.toList) ⟨[], 0, 0⟩
  return ⟨String.ofList (Splice.applyAll source.toList s.accepted), s.applied, s.skipped⟩

/-- The fixes of all results by file, in the order of the paths; equal paths
go under the first spelling. -/
def fixesByFile (results : List AnalysisResult) : List (Path × List Fix) :=
  let add (groups : List (Path × List Fix)) (entry : Path × Fix) : List (Path × List Fix) :=
    let (path, fix) := entry
    if groups.any fun g => g.1.same path then
      groups.map fun g => if g.1.same path then (g.1, g.2 ++ [fix]) else g
    else
      groups ++ [(path, [fix])]
  let entries := results.flatMap fun r =>
    r.diagnostics.filterMap fun d => d.fix.map (r.filePath, ·)
  (entries.foldl add []).mergeSort fun a b => a.1.compare b.1 != .gt

end Edit

end TestLint
