import LslScript.Binary64.Notation
import Mathlib.Order.Monotone.Basic
import Mathlib.Tactic.Ring

/-!
# Rounding

A ratio is rounded to the same magnitude however it is reduced (`nearest_eq_of_mul_eq`), and the value of a finite
magnitude to this magnitude (`nearest_units`). Magnitudes are ordered as their values are (`strictMono_units`).
-/

namespace LslScript

theorem roundHalfEven_mul_right {k : Nat} (hk : 0 < k) (num den : Nat) :
    roundHalfEven (num * k) (den * k) = roundHalfEven num den := by
  have half : ∀ r, 2 * (r * k) < den * k ↔ 2 * r < den := fun r => by
    rw [← Nat.mul_assoc]
    exact Nat.mul_lt_mul_right hk
  have tie : ∀ r, 2 * (r * k) = den * k ↔ 2 * r = den := fun r => by
    rw [← Nat.mul_assoc]
    exact Nat.mul_left_inj (Nat.ne_of_gt hk)
  simp only [roundHalfEven, Nat.mul_div_mul_right _ _ hk, Nat.mul_mod_mul_right, half, tie]

theorem roundHalfEven_mul_self (q : Nat) {den : Nat} (h : 0 < den) : roundHalfEven (q * den) den = q := by
  simp [roundHalfEven, Nat.mul_div_left _ h, h]

namespace Binary64

theorem nearest_mul_right {k : Nat} (hk : 0 < k) (num den : Nat) :
    nearest (num * k) (den * k) = nearest num den := by
  have scaled : num * k * Nat.pow 2 1074 = num * Nat.pow 2 1074 * k := Nat.mul_right_comm ..
  have grid : ∀ s, den * k * Nat.pow 2 s = den * Nat.pow 2 s * k := fun s => Nat.mul_right_comm ..
  simp only [nearest, scaled, grid, Nat.mul_div_mul_right _ _ hk, roundHalfEven_mul_right hk]

theorem nearest_eq_of_mul_eq {a b c d : Nat} (hb : 0 < b) (hd : 0 < d) (h : a * d = c * b) :
    nearest a b = nearest c d := by
  rw [← nearest_mul_right hd a b, h, Nat.mul_comm b d, nearest_mul_right hb]

/-! ## Values of magnitudes -/

theorem units_subnormal {m : Nat} (h : m < 2 ^ 52) : units m = m := if_pos h

theorem units_normal (e : Nat) {f : Nat} (h : f < 2 ^ 52) :
    units ((e + 1) * 2 ^ 52 + f) = (2 ^ 52 + f) * 2 ^ e := by
  have large : ¬ (e + 1) * 2 ^ 52 + f < 2 ^ 52 := by omega
  have fraction : ((e + 1) * 2 ^ 52 + f) % 2 ^ 52 = f := by omega
  have exponent : ((e + 1) * 2 ^ 52 + f) / 2 ^ 52 - 1 = e := by omega
  simp only [units, Nat.pow_eq, if_neg large, fraction, exponent]

/-- The exponent and the fraction of a magnitude that is not subnormal. -/
theorem exists_normal {m : Nat} (h : 2 ^ 52 ≤ m) : ∃ e f, f < 2 ^ 52 ∧ m = (e + 1) * 2 ^ 52 + f :=
  ⟨m / 2 ^ 52 - 1, m % 2 ^ 52, by omega, by omega⟩

theorem strictMono_units : StrictMono units := by
  apply strictMono_nat_of_lt_succ
  intro m
  by_cases hm : m < 2 ^ 52
  · by_cases hs : m + 1 < 2 ^ 52
    · rw [units_subnormal hm, units_subnormal hs]
      omega
    · have edge : m + 1 = (0 + 1) * 2 ^ 52 + 0 := by omega
      rw [units_subnormal hm, edge, units_normal 0 (by omega)]
      omega
  · obtain ⟨e, f, hf, rfl⟩ := exists_normal (Nat.le_of_not_lt hm)
    by_cases hs : f + 1 < 2 ^ 52
    · rw [units_normal e hf, Nat.add_assoc, units_normal e hs]
      exact Nat.mul_lt_mul_of_pos_right (by omega) (Nat.two_pow_pos e)
    · have edge : (e + 1) * 2 ^ 52 + f + 1 = (e + 1 + 1) * 2 ^ 52 + 0 := by omega
      have twice : (2 ^ 52 + 0) * 2 ^ (e + 1) = 2 ^ 53 * 2 ^ e := by
        rw [pow_succ 2 e]
        ring
      rw [units_normal e hf, edge, units_normal (e + 1) (by omega), twice]
      exact Nat.mul_lt_mul_of_pos_right (by omega) (Nat.two_pow_pos e)

def unitsInOne : Nat := Nat.pow 2 1074

theorem unitsInOne_pos : 0 < unitsInOne := by decide +kernel

theorem nearest_eq (num den : Nat) : nearest num den =
    let s := (num * unitsInOne / den).log2 - 52
    min infinity (s * Nat.pow 2 52 + roundHalfEven (num * unitsInOne) (den * Nat.pow 2 s)) := by
  delta unitsInOne nearest
  rfl

theorem nearest_unitsInOne (n : Nat) : nearest n unitsInOne =
    min infinity ((n.log2 - 52) * 2 ^ 52 + roundHalfEven n (2 ^ (n.log2 - 52))) := by
  have scaled : n * unitsInOne / unitsInOne = n := Nat.mul_div_left n unitsInOne_pos
  have grid : ∀ s, roundHalfEven (n * unitsInOne) (unitsInOne * 2 ^ s) = roundHalfEven n (2 ^ s) := fun s => by
    rw [Nat.mul_comm unitsInOne, roundHalfEven_mul_right unitsInOne_pos]
  simp only [nearest_eq, scaled, Nat.pow_eq, grid]

/-- A finite magnitude is as many steps of its size as its value has at the front of its bits. -/
theorem nearest_units {m : Nat} (h : m < infinity) : nearest (units m) unitsInOne = m := by
  have exact : ∀ s q, units m = q * 2 ^ s → (units m).log2 - 52 = s → s * 2 ^ 52 + q = m →
      nearest (units m) unitsInOne = m := by
    intro s q hq hs hm
    rw [nearest_unitsInOne, hs, hq, roundHalfEven_mul_self q (Nat.two_pow_pos s), hm]
    exact Nat.min_eq_right (Nat.le_of_lt h)
  -- below `2 ^ 52` steps are single units; above, the size of a step is in the exponent bits
  by_cases hm : m < 2 ^ 52
  · have bits : m.log2 - 52 = 0 := by
      by_cases h0 : m = 0
      · simp [h0]
      · have := (Nat.log2_lt h0).mpr hm
        omega
    refine exact 0 m ?_ ?_ (by omega)
    · rw [units_subnormal hm, Nat.pow_zero, Nat.mul_one]
    · rw [units_subnormal hm, bits]
  · obtain ⟨e, f, hf, rfl⟩ := exists_normal (Nat.le_of_not_lt hm)
    have bits : ((2 ^ 52 + f) * 2 ^ e).log2 = 52 + e := by
      have positive : (2 ^ 52 + f) * 2 ^ e ≠ 0 := Nat.mul_ne_zero (by omega) (Nat.ne_of_gt (Nat.two_pow_pos e))
      rw [Nat.log2_eq_iff positive, Nat.add_right_comm, Nat.pow_add, Nat.pow_add]
      exact ⟨Nat.mul_le_mul_right _ (by omega), Nat.mul_lt_mul_of_pos_right (by omega) (Nat.two_pow_pos e)⟩
    refine exact e (2 ^ 52 + f) (units_normal e hf) ?_ (by omega)
    rw [units_normal e hf, bits]
    omega

/-! ## Shortest decimals -/

theorem decimalUnit_eq : decimalUnit = unitsInOne * Nat.pow 5 1074 := by decide +kernel

theorem decimalUnit_pos : 0 < decimalUnit := by decide +kernel

theorem nearest_exactDecimal {m : Nat} (h : m < infinity) : nearest (exactDecimal m) decimalUnit = m := by
  have five : 0 < Nat.pow 5 1074 := by decide +kernel
  rw [decimalUnit_eq]
  exact (nearest_mul_right five (units m) unitsInOne).trans (nearest_units h)

theorem nearest_neighbour {m step decimal : Nat} (h : neighbour? m step = some decimal) :
    nearest decimal decimalUnit = m := by
  unfold neighbour? at h
  have reads := List.find?_some h
  rw [readsAs] at reads
  exact eq_of_beq reads

/-- The decimal that is written is read as the number, whether it was found on a grid or not. -/
theorem nearest_shortest {m : Nat} (h : m < infinity) : nearest (shortest m) decimalUnit = m := by
  delta shortest
  simp only
  generalize (List.range 17).map _ = grids
  cases hf : grids.findSome? (neighbour? m) with
  | none =>
    rw [Option.getD_none]
    exact nearest_exactDecimal h
  | some decimal =>
    obtain ⟨step, -, hs⟩ := List.exists_of_findSome?_eq_some hf
    exact nearest_neighbour hs

end Binary64

end LslScript
