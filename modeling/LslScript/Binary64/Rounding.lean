import LslScript.Binary64.Basic

/-!
# Rounding

A ratio is rounded to the nearest magnitude, and of two that are equally near to the even one.
From half a step above the greatest finite magnitude on it is rounded to infinity.
-/

namespace LslScript

/-- The integer nearest to a ratio; of two, the even one. -/
def roundHalfEven (num den : Nat) : Nat :=
  let q := num / den
  let r := num % den
  if 2 * r < den ∨ (2 * r = den ∧ q % 2 = 0) then q else q + 1

namespace Binary64

/-- The magnitude nearest to a ratio. The finite magnitudes from `2 ^ s` times `2 ^ 52` up to twice
as much are `2 ^ s` units apart, and `s` is found from the bits of the ratio in units. -/
def nearest (num den : Nat) : Nat :=
  let scaled := num * Nat.pow 2 1074
  let s := (scaled / den).log2 - 52
  min infinity (s * Nat.pow 2 52 + roundHalfEven scaled (den * Nat.pow 2 s))

theorem nearest_lt (num den : Nat) : nearest num den < Nat.pow 2 63 :=
  Nat.lt_of_le_of_lt (Nat.min_le_left _ _) (by decide)

def ofRatio (negative : Bool) (num den : Nat) : Binary64 :=
  ⟨negative, nearest num den, nearest_lt num den⟩

end Binary64

end LslScript
