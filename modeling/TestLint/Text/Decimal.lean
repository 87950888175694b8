import TestLint.Text.Double

/-!
# Decimals with fixed places

The text of a non-negative double with a fixed number of decimal places,
rounded from its exact value, a tie to the even neighbour.
-/

namespace TestLint.Text

/-- The number of the units of the last place, with a point before the last places. -/
def withPlaces (places units : Nat) : String :=
  let fraction := Nat.repr (units % Nat.pow 10 places)
  Nat.repr (units / Nat.pow 10 places) ++ "." ++
    String.ofList (List.replicate (places - fraction.length) '0') ++ fraction

/-- A finite non-negative double with fixed places. -/
def fixedPlaces (places : Nat) (x : Float) : String :=
  let (num, den) := quotientOfBits x.toBits
  withPlaces places (roundDiv (num * Nat.pow 10 places) den)

end TestLint.Text
