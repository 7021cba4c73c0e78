import LslScript.Binary64.Rounding

/-!
# Shortest decimals

A finite number is written with the fewest decimal digits that are read as this number again. The
decimals with a given number of digits form a grid, on which only the two neighbours of the number
have to be tried. Here a decimal is a multiple of `10 ^ -1074`: every number is one of these.
-/

namespace LslScript.Binary64

/-- The denominator of the decimals by which finite numbers are written. -/
def decimalUnit : Nat := Nat.pow 10 1074

/-- The value of a magnitude as a multiple of `10 ^ -1074`. -/
def exactDecimal (magnitude : Nat) : Nat := units magnitude * Nat.pow 5 1074

def readsAs (magnitude decimal : Nat) : Bool := nearest decimal decimalUnit == magnitude

/-- The multiple of `step` next to the magnitude's value that is read as the magnitude: the nearer
one if both are, and the greater one if they are equally near. -/
def neighbour? (magnitude step : Nat) : Option Nat :=
  let value := exactDecimal magnitude
  let low := value / step * step
  let high := low + step
  let nearerFirst := if value - low < high - value then [low, high] else [high, low]
  nearerFirst.find? (readsAs magnitude)

/-- The decimal with the fewest digits that is read as the magnitude; 17 digits always do. -/
def shortest (magnitude : Nat) : Nat :=
  let value := exactDecimal magnitude
  let length := (Nat.toDigits 10 value).length
  let grids := (List.range 17).map fun dropped => Nat.pow 10 (length - (dropped + 1))
  (grids.findSome? (neighbour? magnitude)).getD value

end LslScript.Binary64
