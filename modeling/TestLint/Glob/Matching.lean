import TestLint.Glob.Reader
import TestLint.Path

/-!
# Matching a glob

The positions of a text are those before each byte and the one at its end.  A
token leads from positions to positions, and the tokens of a pattern lead from
the beginning one after the other.  The positions reached are marked in a list,
so a match takes time in proportion to the pattern and to the text, in however
many ways the text may be divided among the tokens.
-/

namespace TestLint.Glob

/-- The positions of a text, in order, marked or not. -/
abbrev Marks := List Bool

namespace Marks

/-- The beginning of a text marked, and nothing else. -/
def atStart (text : List UInt8) : Marks :=
  true :: text.map fun _ => false

def atEnd (marks : Marks) : Bool :=
  marks.getLastD false

/-- The positions one byte on from the marked ones, where that byte satisfies `ok`. -/
def past (text : List UInt8) (ok : UInt8 → Bool) (marks : Marks) : Marks :=
  false :: List.zipWith (fun b marked => marked && ok b) text marks

def pastSlash (text : List UInt8) (marks : Marks) : Marks :=
  marks.past text (· == 47)

/-- The marked positions and all behind them; all positions, if `seen`. -/
def onwardFrom (seen : Bool) : Marks → Marks
  | [] => []
  | marked :: rest => (seen || marked) :: onwardFrom (seen || marked) rest

/-- The marked positions and all behind them. -/
def onward (marks : Marks) : Marks :=
  marks.onwardFrom false

/-- The positions that are marked in one of two lists. -/
def either (marks others : Marks) : Marks :=
  List.zipWith (· || ·) marks others

end Marks

def inClass (negated : Bool) (ranges : List ByteClassRange) (b : UInt8) : Bool :=
  (ranges.any fun r => r.first ≤ b && b ≤ r.last) != negated

mutual

def Token.lead (text : List UInt8) (marks : Marks) : Token → Marks
  | .literal c => (bytesOf c).foldl (fun marks b => marks.past text (· == b)) marks
  | .anyByte => marks.past text fun _ => true
  | .anyBytes => marks.onward
  | .leadingDirectories => marks.either (marks.onward.pastSlash text)
  | .allBelow => (marks.pastSlash text).onward
  | .innerDirectories =>
    let behind := marks.pastSlash text
    behind.either (behind.onward.pastSlash text)
  | .byteClass negated ranges => marks.past text (inClass negated ranges)
  | .choice branches => if areVoid branches then marks else leadAny text marks branches

def leadAll (text : List UInt8) (marks : Marks) : List Token → Marks
  | [] => marks
  | t :: ts => leadAll text (t.lead text marks) ts

/-- The positions to which one of the branches leads; void ones do not count. -/
def leadAny (text : List UInt8) (marks : Marks) : List (List Token) → Marks
  | [] => marks.map fun _ => false
  | branch :: others =>
    if isVoidBranch branch then leadAny text marks others
    else (leadAll text marks branch).either (leadAny text marks others)

end

/-- The tokens match the whole text; `**` alone matches everything. -/
def tokensMatch (tokens : List Token) (text : String) : Bool :=
  match tokens with
  | [.leadingDirectories] => true
  | tokens =>
    let bytes := text.toList.flatMap bytesOf
    (leadAll bytes (.atStart bytes) tokens).atEnd

/-- The paths that a pattern matches; `none` if the text is no pattern. -/
def matcher? (pattern : String) : Option (Path → Bool) :=
  match read pattern with
  | .ok tokens => some fun p => tokensMatch tokens p.text
  | .error _ => none

end Glob

/-- How patterns are read: the paths that a text matches as a pattern, if it is one. -/
abbrev Globs := String → Option (Path → Bool)

end TestLint
