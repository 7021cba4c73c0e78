import LslScript.Binary64.Rounding
import LslScript.Text.Basic

/-!
# JSON values

Objects keep their members in order, repeated names included, and numbers are kept as they are
written. A string that escapes half of a surrogate pair is a string that spells no text.
-/

namespace LslScript

structure JsonNumber where
  negative : Bool
  whole : Text
  fraction : Option Text
  /-- Whether the exponent is negative, and its digits. -/
  exponent : Option (Bool × Text)
deriving DecidableEq

inductive Json
  | null
  | bool (value : Bool)
  | number (value : JsonNumber)
  | string (text : Option Text)
  | array (items : List Json)
  | object (members : List (Option Text × Json))

namespace JsonNumber

def ofInt (n : Int) : JsonNumber := ⟨n < 0, Text.ofNat n.natAbs, none, none⟩

/-- The value, of a number written without fraction and exponent and not as minus zero. -/
def toInt? (n : JsonNumber) : Option Int :=
  match n.fraction, n.exponent with
  | none, none =>
    let size := Nat.ofDigitChars 10 n.whole 0
    if n.negative then if size = 0 then none else some (-size) else some size
  | _, _ => none

/-- Digits put behind those of a number, as far as the result stays below `2 ^ 64`, and how many
digits there were left. -/
def extend (n : Nat) : Text → Nat × Nat
  | [] => (n, 0)
  | c :: rest =>
    let m := Nat.ofDigitChars 10 [c] n
    if m < Nat.pow 2 64 then extend m rest else (n, rest.length + 1)

/-- A whole number and the power of ten by which a number is read: of more digits than fit into the
whole number only the first are kept. -/
def scaled (n : JsonNumber) : Nat × Int :=
  let fraction := n.fraction.getD []
  let (whole, wholeLeft) := extend 0 n.whole
  let (significand, fractionLeft) := extend whole fraction
  let exponent : Int := match n.exponent with
    | some (negative, digits) =>
      let size : Int := Nat.ofDigitChars 10 digits 0
      if negative then -size else size
    | none => 0
  (significand, exponent + wholeLeft - (fraction.length - fractionLeft))

/-- Whether a number is in the range of floating-point numbers. It is read as a product of a whole
number and a power of ten, and both of them and the product are rounded. -/
def isFinite (n : JsonNumber) : Bool :=
  let (significand, exponent) := n.scaled
  if significand = 0 || exponent ≤ 0 then true
  else if 308 < exponent then false
  else
    let factor := Binary64.units (Binary64.nearest significand 1)
    let power := Binary64.units (Binary64.nearest (Nat.pow 10 exponent.toNat) 1)
    Binary64.nearest (factor * power) (Nat.pow 2 2148) < Binary64.infinity

end JsonNumber

namespace Json

/-! ## Bounds on values -/

mutual

def depth : Json → Nat
  | array items => depthOfItems items + 1
  | object members => depthOfMembers members + 1
  | null | bool _ | number _ | string _ => 0

def depthOfItems : List Json → Nat
  | [] => 0
  | j :: rest => max j.depth (depthOfItems rest)

def depthOfMembers : List (Option Text × Json) → Nat
  | [] => 0
  | (_, j) :: rest => max j.depth (depthOfMembers rest)

end

mutual

/-- Whether every string, names included, spells a text and every number is finite. -/
def isSound : Json → Bool
  | array items => areSoundItems items
  | object members => areSoundMembers members
  | number n => n.isFinite
  | string text => text.isSome
  | null | bool _ => true

def areSoundItems : List Json → Bool
  | [] => true
  | j :: rest => j.isSound && areSoundItems rest

def areSoundMembers : List (Option Text × Json) → Bool
  | [] => true
  | (name, j) :: rest => name.isSome && j.isSound && areSoundMembers rest

end

end Json

end LslScript
