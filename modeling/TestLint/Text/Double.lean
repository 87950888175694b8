/-!
# Doubles as quotients

The numbers of double precision by their bits, without arithmetic on them: the
quotient that the bits stand for, and the bits of the number nearest to a
quotient.
-/

namespace TestLint.Text

/-- The quotient rounded to the nearest whole number, a tie to the even one. -/
def roundDiv (num den : Nat) : Nat :=
  let q := num / den
  let r := num % den
  if 2 * r < den then q
  else if 2 * r > den then q + 1
  else if q % 2 = 0 then q
  else q + 1

/-- A finite non-negative double as a quotient: the bits of its fraction with
the hidden one, and the power of two that they are counted in. -/
def quotientOfBits (bits : UInt64) : Nat × Nat :=
  let n := bits.toNat
  let exponent := n / Nat.pow 2 52 % Nat.pow 2 11
  let fraction := n % Nat.pow 2 52
  let mantissa := if exponent = 0 then fraction else fraction + Nat.pow 2 52
  let power := max exponent 1
  if power ≥ 1075 then (mantissa * Nat.pow 2 (power - 1075), 1) else
    (mantissa, Nat.pow 2 (1075 - power))

def infinityBits : UInt64 := 0x7FF0000000000000

/-- The bits of the double nearest to a positive quotient, a tie to the even
neighbour; infinity beyond the largest one.  The quotient is counted in units of
`2 ^ (power - 1074)`, of which a normal double has from `2 ^ 52` to `2 ^ 53`; a
unit that rounds up past the end carries into the power, which is the next
double in the order of bits too. -/
def nearestBits (num den : Nat) : UInt64 :=
  let scaled := num * Nat.pow 2 1074
  let guess := Nat.log2 scaled - Nat.log2 den - 52
  let power := if scaled / (den * Nat.pow 2 guess) < Nat.pow 2 52 then guess - 1 else guess
  let units := roundDiv scaled (den * Nat.pow 2 power)
  let bits := power * Nat.pow 2 52 + units
  if bits < infinityBits.toNat then UInt64.ofNat bits else infinityBits

end TestLint.Text
