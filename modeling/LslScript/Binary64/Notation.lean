import LslScript.Binary64.Shortest
import LslScript.Text.Basic

/-!
# Written numbers

A number is written positionally, with at least one digit on either side of the point, if it is zero
or from `1e-4` up to below `1e16`, and otherwise with one digit before the point and an exponent.
-/

namespace LslScript.Binary64

def significant (digits : Text) : Text := (digits.reverse.dropWhile (· == '0')).reverse

/-- A multiple of `10 ^ -1074` with all its digits before the point. -/
def positional (decimal : Nat) : Text :=
  let fraction := Nat.toDigits 10 (decimalUnit + decimal % decimalUnit)
  Text.ofNat (decimal / decimalUnit) ++ "." ++
    match significant fraction.tail with
    | [] => "0"
    | digits => digits

/-- A positive multiple of `10 ^ -1074` with one digit before the point. -/
def scientific (decimal : Nat) : Text :=
  let digits := Nat.toDigits 10 decimal
  let exponent : Int := (digits.length : Int) - 1 - 1074
  match significant digits with
  | [] => "0"
  | [d] => d :: 'e' :: Text.ofInt exponent
  | d :: others => d :: '.' :: others ++ "e" ++ Text.ofInt exponent

/-- The magnitudes other than zero that are written positionally lie from the first of these up to
below the second. -/
def positionalRange : Nat × Nat := (nearest 1 (Nat.pow 10 4), nearest (Nat.pow 10 16) 1)

def isPositional (magnitude : Nat) : Bool :=
  magnitude == 0 || (positionalRange.1 ≤ magnitude && magnitude < positionalRange.2)

def magnitudeText (magnitude : Nat) : Text :=
  if magnitude = infinity then "inf"
  else if isPositional magnitude then positional (shortest magnitude)
  else scientific (shortest magnitude)

/-- The written form; a value that is not a number has no sign. -/
def text (x : Binary64) : Text :=
  if infinity < x.magnitude then "NaN"
  else if x.negative then '-' :: magnitudeText x.magnitude
  else magnitudeText x.magnitude

end LslScript.Binary64
