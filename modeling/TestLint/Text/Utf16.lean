/-!
# UTF-16 code units

The measure of length in which method bodies are compared: a character
outside the basic plane counts as two units, all others as one.
-/

namespace TestLint.Text

def unitsOf (c : Char) : List Nat :=
  let n := c.toNat
  if n < 0x10000 then
    [n]
  else
    [0xD800 + (n - 0x10000) / 0x400, 0xDC00 + (n - 0x10000) % 0x400]

def units16 (s : String) : List Nat :=
  s.toList.flatMap unitsOf

end TestLint.Text
