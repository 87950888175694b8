import TestLint.Text.Utf16

/-!
# Edit distance and similarity

The least number of insertions, deletions and substitutions that turns one
text into another, counted in UTF-16 code units, and the similarity drawn from
it.  The distance is read off a table of the distances between the beginnings
of the two texts.  A score is kept as the exact pair of distance and length;
near duplicates are those with a distance of less than one in two hundred units.
-/

namespace TestLint.Duplicate

/-- The distances between the beginnings of two sequences, held row by row in
one array: row `i` and column `j` are for the first `i` elements of the one
sequence and the first `j` of the other. -/
structure Table where
  /-- The length of a row. -/
  width : Nat
  cells : Array Nat
  deriving Repr, Inhabited

namespace Table

/-- An empty table for sequences of these lengths. -/
def zeros (n m : Nat) : Table :=
  ⟨m + 1, Array.replicate ((n + 1) * (m + 1)) 0⟩

def get? (t : Table) (i j : Nat) : Option Nat :=
  t.cells[i * t.width + j]?

/-- The table with another value in a cell; `none` if there is no such cell. -/
def set? (t : Table) (i j value : Nat) : Option Table :=
  if h : i * t.width + j < t.cells.size then
    some { t with cells := t.cells.set (i * t.width + j) value h }
  else
    none

variable {α : Type} [DecidableEq α]

/-- Fills the cell of the beginnings that end with the elements `i` and `j`,
from the cells above it, before it and between these two. -/
def fillCell? (xs ys : Array α) (t : Table) (i j : Nat) : Option Table := do
  let x ← xs[i]?
  let y ← ys[j]?
  let deletion ← t.get? i (j + 1)
  let insertion ← t.get? (i + 1) j
  let substitution ← t.get? i j
  let cost := if x = y then 0 else 1
  t.set? (i + 1) (j + 1) (min (min (deletion + 1) (insertion + 1)) (substitution + cost))

/-- The table of two sequences: first the distances from and to nothing, then
all others row by row. It is `none` if a cell or an element is asked for that
does not exist. -/
def filled? (xs ys : Array α) : Option Table := do
  let t ← (List.range (xs.size + 1)).foldlM (fun t i => t.set? i 0 i) (zeros xs.size ys.size)
  let t ← (List.range (ys.size + 1)).foldlM (fun t j => t.set? 0 j j) t
  (List.range xs.size).foldlM
    (fun t i => (List.range ys.size).foldlM (fun t j => t.fillCell? xs ys i j) t) t

end Table

/-- The edit distance of two sequences: what stands in the last cell of their table. -/
def distance [DecidableEq α] (xs ys : List α) : Nat :=
  ((Table.filled? xs.toArray ys.toArray).bind fun t => t.get? xs.length ys.length).getD 0

/-- The similarity of two texts, as the number of edits and the length of the
longer text. -/
structure Score where
  distance : Nat
  length : Nat
  deriving DecidableEq, Repr, Inhabited

namespace Score

def ofTexts (a b : String) : Score :=
  let xs := Text.units16 a
  let ys := Text.units16 b
  ⟨Duplicate.distance xs ys, max xs.length ys.length⟩

def isNear (s : Score) : Bool :=
  s.length == 0 || 200 * s.distance < s.length

/-- One less the share of edits; two empty texts are equal. -/
def toFloat (s : Score) : Float :=
  if s.length = 0 then 1.0 else 1.0 - s.distance.toFloat / s.length.toFloat

end Score

end TestLint.Duplicate
