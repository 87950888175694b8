import TestLint.Text.Bytes

/-!
# Lines, columns and byte offsets

A place in a text is given either by its byte offset or by a line and a
column, both from 1, where the column counts bytes and only a newline ends a
line.  `Position.ofOffset` goes from the offset to the line and column;
`Position.rowStart?` and `Position.rowLength` serve the way back, on which a
position may be refused.

Offsets, counters and sizes are held in machine words.  A sum that is larger
than a word is no number: the program stops there without a result (`Overflow`).
-/

namespace TestLint

/-- The program has stopped at a sum that is larger than a machine word. -/
structure Overflow where
  deriving DecidableEq, Repr, Inhabited

/-- A line and a byte column, both from 1. -/
structure Position where
  line : Nat
  column : Nat
  deriving DecidableEq, Repr, Inhabited

namespace Position

/-- The number of values of the word that holds an offset. -/
def wordSize : Nat := Nat.pow 2 64

/-- Moves a position over the given number of bytes of the text after it. -/
def advance (p : Position) : Nat → List Char → Position
  | 0, _ => p
  | _ + 1, [] => p
  | n + 1, c :: cs =>
    if c = '\n' then
      advance ⟨p.line + 1, 1⟩ n cs
    else if c.utf8Size ≤ n + 1 then
      advance ⟨p.line, p.column + c.utf8Size⟩ (n + 1 - c.utf8Size) cs
    else
      ⟨p.line, p.column + (n + 1)⟩

/-- The position of a byte offset of the text. -/
def ofOffset (offset : Nat) (cs : List Char) : Position :=
  advance ⟨1, 1⟩ offset cs

/-- The byte offset where the row begins, rows counted from 0. -/
def rowStart? : Nat → List Char → Option Nat
  | 0, _ => some 0
  | _ + 1, [] => none
  | row + 1, c :: cs =>
    (rowStart? (if c = '\n' then row else row + 1) cs).map (c.utf8Size + ·)

/-- The number of bytes before the first newline. -/
def rowLength (cs : List Char) : Nat :=
  Text.byteSize (cs.takeWhile (· != '\n'))

end Position

end TestLint
