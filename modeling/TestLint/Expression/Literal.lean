import TestLint.Text.Blank
import TestLint.Text.Double

/-!
# Literals

The values that the tokens of number, character and string literals stand for.
An integer has a value only below `2^127`; a real number is given by the bits
of the nearest binary fraction of double precision, so that a literal beyond
the largest one is an infinity.  Escapes in strings are left as written.
-/

namespace TestLint.Literal

/-- The bound below which integer literals have a value. -/
def integerBound : Nat := Nat.pow 2 127

/-- The value of a digit, letters counting on from ten. -/
def digitValue? (base : Nat) (c : Char) : Option Nat :=
  let value :=
    if '0' ≤ c ∧ c ≤ '9' then c.toNat - '0'.toNat
    else if 'a' ≤ c ∧ c ≤ 'z' then c.toNat - 'a'.toNat + 10
    else base
  if value < base then some value else none

/-- The number that digits spell in a base; at least one digit is needed. -/
def natural? (base : Nat) (digits : List Char) : Option Nat :=
  if digits.isEmpty then
    none
  else
    digits.foldlM (fun n c => (digitValue? base c).map (base * n + ·)) 0

/-- The text in lower case, without the underscores between digits. -/
def normalized (text : List Char) : List Char :=
  (text.filter (· != '_')).map Char.toLower

/-- The value of an integer literal: decimal, hexadecimal or binary, with any
of the endings for unsigned and long. -/
def integer? (text : List Char) : Option Int := do
  let digits := Text.dropEndWhile (fun c => c == 'u' || c == 'l') (normalized text)
  let n ←
    match digits with
    | '0' :: 'x' :: hex => natural? 16 hex
    | '0' :: 'b' :: binary => natural? 2 binary
    | decimal => natural? 10 decimal
  if n < integerBound then some (n : Int) else none

/-- A decimal fraction: `mantissa · 10 ^ (scale - places)`. -/
structure Decimal where
  mantissa : Nat
  /-- The digits of the mantissa that stand after the point. -/
  places : Nat
  exponent : Int
  deriving DecidableEq, Repr, Inhabited

/-- The digits of a text, possibly none, and what follows them. -/
private def digitRun (cs : List Char) : List Char × List Char :=
  (cs.takeWhile Char.isDigit, cs.dropWhile Char.isDigit)

/-- A signed exponent that fills the text. -/
private def exponent? : List Char → Option Int
  | '-' :: digits => (natural? 10 digits).map fun n => -(n : Int)
  | '+' :: digits => (natural? 10 digits).map fun n => (n : Int)
  | digits => (natural? 10 digits).map fun n => (n : Int)

/-- The decimal that a text in lower case spells: digits with at most one point
among or beside them, then perhaps an exponent. -/
def decimal? (text : List Char) : Option Decimal := do
  let (whole, rest) := digitRun text
  let (fraction, rest) :=
    match rest with
    | '.' :: rest => digitRun rest
    | rest => ([], rest)
  let mantissa ← natural? 10 (whole ++ fraction)
  match rest with
  | [] => some ⟨mantissa, fraction.length, 0⟩
  | 'e' :: exponent => (exponent? exponent).map fun e => ⟨mantissa, fraction.length, e⟩
  | _ => none

/-- The bits of the double nearest to a decimal. Beyond `10 ^ 400` all
numbers are infinite, below `10 ^ -400` all are zero. -/
def Decimal.bits (d : Decimal) : UInt64 :=
  let scale := d.exponent - d.places
  let magnitude := scale + (Nat.repr d.mantissa).length
  if d.mantissa = 0 ∨ magnitude < -400 then
    0
  else if magnitude > 400 then
    Text.infinityBits
  else if scale < 0 then
    Text.nearestBits d.mantissa (Nat.pow 10 scale.natAbs)
  else
    Text.nearestBits (d.mantissa * Nat.pow 10 scale.natAbs) 1

def negateBits (bits : UInt64) : UInt64 :=
  bits ^^^ 0x8000000000000000

/-- The two numbers are equal, the two zeros being one number. -/
def sameReal (a b : UInt64) : Bool :=
  a == b || ((a ||| b) &&& 0x7FFFFFFFFFFFFFFF) == 0

/-- The bits and the ending of a real literal. -/
def real? (text : List Char) : Option (UInt64 × Option Char) := do
  let cs := normalized text
  let ending := cs.getLast?.filter fun c => c == 'f' || c == 'd' || c == 'm'
  let digits := if ending.isSome then cs.dropLast else cs
  (decimal? digits).map fun d => (d.bits, ending)

/-- The value of a character literal; of an escape it is the escaped character,
and a longer escape is read by its first character only. -/
def character? (text : List Char) : Option Char := do
  let rest ← Text.dropStart? ['\''] text
  let inner ← Text.dropEnd? ['\''] rest
  match inner with
  | [] => none
  | '\\' :: escaped =>
    match escaped with
    | [] => none
    | 'n' :: _ => some '\n'
    | 't' :: _ => some '\t'
    | 'r' :: _ => some '\r'
    | '0' :: _ => some '\x00'
    | c :: _ => some c
  | c :: _ => some c

/-- What stands between the quotes of a string literal; between triple quotes
the blanks at both ends do not count. -/
def stringContent (text : List Char) : List Char :=
  let body := text.dropWhile (· == '@')
  if ['"', '"', '"'].isPrefixOf body then
    Text.trim (Text.dropEndWhile (· == '"') (body.dropWhile (· == '"')))
  else
    ((Text.dropStart? ['"'] body).bind (Text.dropEnd? ['"'])).getD body

end TestLint.Literal
