import LslScript.Binary64.Rounding
import LslScript.Text.Basic

/-!
# Decimals

A decimal is an optional sign, then digits with an optional point, where at least one digit stands
on either side of the point.
-/

namespace LslScript

/-- The value `coefficient / 10 ^ places`, with a sign of its own. -/
structure Decimal where
  negative : Bool
  coefficient : Nat
  places : Nat
deriving DecidableEq

namespace Decimal

/-- Whether the sign in front of a text is a minus, and what follows the sign if there is one. -/
def takeSign : Text → Bool × Text
  | '+' :: rest => (false, rest)
  | '-' :: rest => (true, rest)
  | t => (false, t)

/-- What follows the decimal in front of a text. -/
def pass? (t : Text) : Option Text :=
  let unsigned := (takeSign t).2
  let whole := unsigned.takeWhile Char.isDigit
  match unsigned.dropWhile Char.isDigit with
  | '.' :: rest =>
    if whole.isEmpty && (rest.takeWhile Char.isDigit).isEmpty then none
    else some (rest.dropWhile Char.isDigit)
  | rest => if whole.isEmpty then none else some rest

def ofDigits? (negative : Bool) (whole fraction : Text) : Option Decimal :=
  let digits := whole ++ fraction
  if digits.isEmpty || !digits.all Char.isDigit then none
  else some ⟨negative, Nat.ofDigitChars 10 digits 0, fraction.length⟩

def ofText? (t : Text) : Option Decimal :=
  let (negative, unsigned) := takeSign t
  match unsigned.splitOn '.' with
  | [whole] => ofDigits? negative whole []
  | [whole, fraction] => ofDigits? negative whole fraction
  | _ => none

def toBinary64 (d : Decimal) : Binary64 := .ofRatio d.negative d.coefficient (Nat.pow 10 d.places)

end Decimal

end LslScript
