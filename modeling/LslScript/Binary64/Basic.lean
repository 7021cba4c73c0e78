/-!
# Floating-point numbers

A binary floating-point number of 64 bits is a sign and a magnitude: the exponent bits above the
fraction bits, read as one number. Magnitudes are ordered as the values they stand for.
-/

namespace LslScript

structure Binary64 where
  negative : Bool
  magnitude : Nat
  magnitude_lt : magnitude < Nat.pow 2 63
deriving DecidableEq

namespace Binary64

def ofBits (bits : Nat) : Binary64 :=
  ⟨bits / Nat.pow 2 63 % 2 == 1, bits % Nat.pow 2 63, Nat.mod_lt _ (by decide)⟩

/-- The magnitude of the infinities; the greater ones are not numbers. -/
def infinity : Nat := 2047 * Nat.pow 2 52

/-- The value of a finite magnitude, as a multiple of the least positive value `2 ^ -1074`. -/
def units (magnitude : Nat) : Nat :=
  if magnitude < Nat.pow 2 52 then magnitude
  else (Nat.pow 2 52 + magnitude % Nat.pow 2 52) * Nat.pow 2 (magnitude / Nat.pow 2 52 - 1)

end Binary64

end LslScript
