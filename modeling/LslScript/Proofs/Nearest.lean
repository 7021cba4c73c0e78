import LslScript.Proofs.Rounding
import Mathlib.Algebra.Order.Field.Basic
import Mathlib.Algebra.Order.Field.Power
import Mathlib.Algebra.Order.Field.Rat
import Mathlib.Data.Rat.Cast.Order
import Mathlib.Tactic.Linarith
import Mathlib.Tactic.NormNum

/-!
# The nearest number

What it is to round to the nearest floating-point number of 64 bits, said without a way of doing it: ratios from the
midpoint above the greatest finite number on go to infinity, all others to a finite number that no finite one is
nearer than, with an even magnitude if another is as near. There is one such magnitude for each ratio, and
`nearest` finds it (`isNearest_iff`).
-/

namespace LslScript

theorem roundHalfEven_error (num : Nat) {den : Nat} (h : 0 < den) :
    2 * num ≤ (2 * roundHalfEven num den + 1) * den ∧ 2 * roundHalfEven num den * den ≤ 2 * num + den ∧
      (2 * num = (2 * roundHalfEven num den + 1) * den ∨ 2 * roundHalfEven num den * den = 2 * num + den →
        Even (roundHalfEven num den)) := by
  have whole := Nat.div_add_mod num den
  have proper := Nat.mod_lt num h
  simp only [roundHalfEven, Nat.even_iff]
  generalize num / den = q at *
  generalize num % den = r at *
  have double : 2 * q * den = 2 * (den * q) := by ring
  split
  · rw [Nat.add_mul, Nat.one_mul, double]
    omega
  · have next : 2 * (q + 1) * den = 2 * (den * q) + 2 * den := by ring
    rw [Nat.add_mul, Nat.one_mul, next]
    omega

theorem roundHalfEven_bounds (num den : Nat) :
    num / den ≤ roundHalfEven num den ∧ roundHalfEven num den ≤ num / den + 1 := by
  simp only [roundHalfEven]
  split
  · exact ⟨Nat.le_refl _, Nat.le_succ _⟩
  · exact ⟨Nat.le_succ _, Nat.le_refl _⟩

/-- Rounded to a multiple of a step, a ratio moves by at most half of it. -/
theorem abs_sub_roundHalfEven (num : Nat) {den step : Nat} (hd : 0 < den) (hs : 0 < step) :
    |(num / den : ℚ) - roundHalfEven num (den * step) * step| ≤ step / 2 ∧
      (|(num / den : ℚ) - roundHalfEven num (den * step) * step| = step / 2 →
        Even (roundHalfEven num (den * step))) := by
  obtain ⟨above, below, tie⟩ := roundHalfEven_error num (Nat.mul_pos hd hs)
  generalize roundHalfEven num (den * step) = r at *
  have positive : (0 : ℚ) < den := Nat.cast_pos.mpr hd
  have scaled : ((num / den : ℚ) - r * step) * den = num - r * (den * step) := by
    rw [sub_mul, div_mul_cancel₀ _ positive.ne', mul_assoc, mul_comm (step : ℚ)]
  have above : (2 * num : ℚ) ≤ (2 * r + 1) * (den * step) := by exact_mod_cast above
  have below : (2 * r * (den * step) : ℚ) ≤ 2 * num + den * step := by exact_mod_cast below
  refine ⟨abs_le.mpr ⟨?_, ?_⟩, fun half => tie ?_⟩
  · exact le_of_mul_le_mul_right (by linarith) positive
  · exact le_of_mul_le_mul_right (by linarith) positive
  · rcases eq_or_eq_neg_of_abs_eq half with half | half
    · rw [half] at scaled
      exact .inl (by exact_mod_cast (by linarith : (2 * num : ℚ) = (2 * r + 1) * (den * step)))
    · rw [half] at scaled
      exact .inr (by exact_mod_cast (by linarith : (2 * r * (den * step) : ℚ) = 2 * num + den * step))

namespace Binary64

/-! ## Grids

From `2 ^ 52` up to `2 ^ 53` steps of `2 ^ s` units, and below if `s` is zero, the finite numbers are the
multiples of `2 ^ s` units. -/

def OnGrid (s r : Nat) : Prop := r ≤ 2 ^ 53 ∧ (s = 0 ∨ 2 ^ 52 ≤ r)

theorem OnGrid.units {s r : Nat} (h : OnGrid s r) : units (s * 2 ^ 52 + r) = r * 2 ^ s := by
  obtain ⟨hr, hs⟩ := h
  by_cases low : s * 2 ^ 52 + r < 2 ^ 52
  · obtain rfl : s = 0 := by omega
    rw [units_subnormal low, Nat.pow_zero, Nat.mul_one, Nat.zero_mul, Nat.zero_add]
  · by_cases top : r = 2 ^ 53
    · have edge : s * 2 ^ 52 + r = (s + 1 + 1) * 2 ^ 52 + 0 := by omega
      rw [edge, units_normal (s + 1) (by omega), top, pow_succ 2 s]
      ring
    · have inner : s * 2 ^ 52 + r = (s + 1) * 2 ^ 52 + (r - 2 ^ 52) := by omega
      rw [inner, units_normal s (by omega), Nat.add_sub_of_le (by omega)]

/-- What is above a number on the grid is at least a step above it. -/
theorem OnGrid.units_above {s r m : Nat} (h : OnGrid s r) (hm : s * 2 ^ 52 + r < m) :
    r * 2 ^ s + 2 ^ s ≤ Binary64.units m := by
  refine le_trans ?_ (strictMono_units.monotone (Nat.succ_le_of_lt hm))
  by_cases top : r = 2 ^ 53
  · have edge : (s * 2 ^ 52 + r).succ = (s + 1 + 1) * 2 ^ 52 + 1 := by omega
    have twice : (2 ^ 52 + 1) * 2 ^ (s + 1) = (2 ^ 53 + 2) * 2 ^ s := by
      rw [pow_succ 2 s]
      ring
    rw [edge, units_normal (s + 1) (by omega), twice, top, ← Nat.succ_mul]
    exact Nat.mul_le_mul_right _ (by omega)
  · have next : OnGrid s (r + 1) := ⟨by have := h.1; omega, by have := h.2; omega⟩
    rw [Nat.succ_eq_add_one, Nat.add_assoc, next.units, Nat.succ_mul]

/-- What is below a number on the grid is at least a step below it, unless the grid starts there. -/
theorem OnGrid.units_below {s r m : Nat} (h : OnGrid s r) (hr : s = 0 ∨ 2 ^ 52 < r) (hm : m < s * 2 ^ 52 + r) :
    Binary64.units m + 2 ^ s ≤ r * 2 ^ s := by
  obtain ⟨p, rfl⟩ : ∃ p, r = p + 1 := ⟨r - 1, by omega⟩
  have previous : OnGrid s p := ⟨by have := h.1; omega, by omega⟩
  have := strictMono_units.monotone (show m ≤ s * 2 ^ 52 + p by omega)
  rw [previous.units] at this
  rw [Nat.succ_mul]
  omega

/-- The first 53 bits of a number, or all of them if it has fewer. -/
theorem first_bits {n s : Nat} (hs : n.log2 - 52 = s) : n / 2 ^ s < 2 ^ 53 ∧ (s = 0 ∨ 2 ^ 52 ≤ n / 2 ^ s) := by
  constructor
  · refine Nat.div_lt_of_lt_mul (lt_of_lt_of_le Nat.lt_log2_self ?_)
    rw [← pow_add]
    exact Nat.pow_le_pow_right two_pos (by omega)
  · refine (Nat.eq_zero_or_pos s).imp_right fun positive => ?_
    have nonzero : n ≠ 0 := by
      rintro rfl
      rw [Nat.log2_zero] at hs
      omega
    rw [Nat.le_div_iff_mul_le (Nat.two_pow_pos s), ← pow_add, show 52 + s = n.log2 by omega]
    exact Nat.log2_self_le nonzero

structure RoundsOnGrid (u : ℚ) (s r : Nat) : Prop where
  grid : OnGrid s r
  start : s = 0 ∨ 2 ^ 52 * 2 ^ s ≤ u
  error : |u - r * 2 ^ s| ≤ 2 ^ s / 2
  tie : |u - r * 2 ^ s| = 2 ^ s / 2 → Even r

theorem roundsOnGrid_nearest (num : Nat) {den : Nat} (h : 0 < den) : ∃ s r,
    RoundsOnGrid (num * unitsInOne / den) s r ∧ nearest num den = min infinity (s * 2 ^ 52 + r) := by
  generalize hs : (num * unitsInOne / den).log2 - 52 = s
  obtain ⟨upper, lower⟩ := first_bits hs
  have bounds := roundHalfEven_bounds (num * unitsInOne) (den * 2 ^ s)
  obtain ⟨error, tie⟩ := abs_sub_roundHalfEven (num * unitsInOne) h (Nat.two_pow_pos s)
  rw [Nat.div_div_eq_div_mul] at upper lower
  push_cast at error tie
  refine ⟨s, roundHalfEven (num * unitsInOne) (den * 2 ^ s), ⟨⟨by omega, by omega⟩, ?_, error, tie⟩, ?_⟩
  · refine lower.imp_right fun first => ?_
    rw [Nat.le_div_iff_mul_le (Nat.mul_pos h (Nat.two_pow_pos s)), Nat.mul_comm den, ← Nat.mul_assoc] at first
    rw [le_div_iff₀ (Nat.cast_pos.mpr h)]
    exact_mod_cast first
  · rw [nearest_eq]
    simp only [hs, Nat.pow_eq]

theorem RoundsOnGrid.nearest {u : ℚ} {s r m : Nat} (h : RoundsOnGrid u s r) (hm : m ≠ s * 2 ^ 52 + r) :
    |u - units (s * 2 ^ 52 + r)| ≤ |u - units m| ∧
      (|u - units m| = |u - units (s * 2 ^ 52 + r)| → Even (s * 2 ^ 52 + r)) := by
  have value : (units (s * 2 ^ 52 + r) : ℚ) = r * 2 ^ s := by exact_mod_cast h.grid.units
  rw [value]
  obtain ⟨low, high⟩ := abs_le.mp h.error
  have even : |u - r * 2 ^ s| = 2 ^ s / 2 → Even (s * 2 ^ 52 + r) := fun half =>
    ((even_two.pow_of_ne_zero (by decide)).mul_left s).add (h.tie half)
  -- half a step away from `u` is never nearer, and as near only if `u` lies in the middle of the step
  have far : 2 ^ s / 2 ≤ |u - units m| → |u - r * 2 ^ s| ≤ |u - units m| ∧
      (|u - units m| = |u - r * 2 ^ s| → Even (s * 2 ^ 52 + r)) := fun away =>
    ⟨h.error.trans away, fun same => even (le_antisymm h.error (same ▸ away))⟩
  rcases Nat.lt_or_gt_of_ne hm with below | above
  · by_cases inner : s = 0 ∨ 2 ^ 52 < r
    · have apart : (units m + 2 ^ s : ℚ) ≤ r * 2 ^ s := by exact_mod_cast h.grid.units_below inner below
      exact far (le_abs.mpr (.inl (by linarith)))
    -- below the first number of a grid the steps are half as long, but there `u` is not below it
    · have first : r = 2 ^ 52 := by
        have := h.grid.2
        omega
      have start : (r * 2 ^ s : ℚ) ≤ u := by
        rw [first]
        exact_mod_cast h.start.resolve_left fun hs => inner (.inl hs)
      have apart : (units m : ℚ) < r * 2 ^ s := by
        rw [← value]
        exact_mod_cast strictMono_units below
      rw [abs_of_nonneg (by linarith), abs_of_pos (by linarith)]
      exact ⟨by linarith, fun same => by linarith⟩
  · have apart : (r * 2 ^ s + 2 ^ s : ℚ) ≤ units m := by exact_mod_cast h.grid.units_above above
    exact far (le_abs.mpr (.inr (by linarith)))

/-! ## Nearest values -/

/-- The number that the exponent bits and the fraction bits of a finite magnitude stand for. -/
def value (m : Nat) : ℚ :=
  if m / 2 ^ 52 = 0 then (m % 2 ^ 52 : Nat) / 2 ^ 52 * 2 ^ (-1022 : ℤ)
  else (1 + (m % 2 ^ 52 : Nat) / 2 ^ 52) * 2 ^ ((m / 2 ^ 52 : Nat) - 1023 : ℤ)

theorem cast_unitsInOne : (unitsInOne : ℚ) = 2 ^ ((1074 : Nat) : ℤ) := by
  have cast (n : Nat) : ((Nat.pow 2 n : Nat) : ℚ) = 2 ^ (n : ℤ) := by
    rw [Nat.pow_eq, Nat.cast_pow, Nat.cast_ofNat, zpow_natCast]
  delta unitsInOne
  generalize 1074 = n
  exact cast n

theorem value_eq (m : Nat) : value m = units m / unitsInOne := by
  rw [value, cast_unitsInOne, eq_div_iff (zpow_ne_zero _ two_ne_zero)]
  split
  · rename_i subnormal
    have scale : (2 : ℚ) ^ (-1022 : ℤ) * 2 ^ ((1074 : Nat) : ℤ) = 2 ^ 52 := by
      rw [← zpow_add₀ two_ne_zero]
      rfl
    rw [mul_assoc, scale, units_subnormal (by omega), Nat.mod_eq_of_lt (by omega)]
    exact div_mul_cancel₀ _ (by positivity)
  · rename_i normal
    obtain ⟨e, f, hf, rfl⟩ := exists_normal (m := m) (by omega)
    have exponent : ((e + 1) * 2 ^ 52 + f) / 2 ^ 52 = e + 1 := by omega
    have fraction : ((e + 1) * 2 ^ 52 + f) % 2 ^ 52 = f := by omega
    have scale : (2 : ℚ) ^ ((e + 1 : Nat) - 1023 : ℤ) * 2 ^ ((1074 : Nat) : ℤ) = 2 ^ 52 * 2 ^ e := by
      rw [← zpow_add₀ two_ne_zero, ← pow_add, ← zpow_natCast]
      congr 1
      push_cast
      ring
    rw [exponent, fraction, mul_assoc, scale, units_normal e hf]
    push_cast
    ring

theorem strictMono_value : StrictMono value := by
  intro a b h
  rw [value_eq, value_eq]
  exact div_lt_div_of_pos_right (Nat.cast_lt.mpr (strictMono_units h)) (Nat.cast_pos.mpr unitsInOne_pos)

theorem value_infinity : value infinity = 2 ^ 1024 := by
  have exponent : infinity / 2 ^ 52 = 2047 := by decide
  have fraction : infinity % 2 ^ 52 = 0 := by decide
  rw [value, exponent, fraction, if_neg (by decide), Nat.cast_zero, zero_div, add_zero, one_mul]
  exact zpow_natCast 2 1024

theorem value_greatest : value (infinity - 1) = 2 ^ 1024 - 2 ^ 971 := by
  have exponent : (infinity - 1) / 2 ^ 52 = 2046 := by decide
  have fraction : (infinity - 1) % 2 ^ 52 = 2 ^ 52 - 1 := by decide
  have power : (2 : ℚ) ^ ((2046 : Nat) - 1023 : ℤ) = 2 ^ 52 * 2 ^ 971 := by
    rw [← pow_add]
    exact zpow_natCast 2 1023
  have top : (2 : ℚ) ^ 1024 = 2 ^ 53 * 2 ^ 971 := by rw [← pow_add]
  rw [value, exponent, fraction, if_neg (by decide), power, top]
  generalize (2 : ℚ) ^ 971 = step
  norm_num
  ring

/-- The magnitude that a ratio from zero on is rounded to, with ties to the even one. -/
structure IsNearest (q : ℚ) (m : Nat) : Prop where
  overflow : 2 ^ 1024 - 2 ^ 970 ≤ q → m = 2047 * 2 ^ 52
  finite : q < 2 ^ 1024 - 2 ^ 970 → m < 2047 * 2 ^ 52
  nearest : q < 2 ^ 1024 - 2 ^ 970 → ∀ k < 2047 * 2 ^ 52, |q - value m| ≤ |q - value k|
  even : q < 2 ^ 1024 - 2 ^ 970 → ∀ k < 2047 * 2 ^ 52, k ≠ m → |q - value k| = |q - value m| → Even m

/-- Without the bound at infinity, the magnitude found is next to the ratio among all there are. -/
theorem exists_nearest_value (num : Nat) {den : Nat} (h : 0 < den) : ∃ m, nearest num den = min infinity m ∧
    ∀ k, k ≠ m → |(num / den : ℚ) - value m| ≤ |(num / den : ℚ) - value k| ∧
      (|(num / den : ℚ) - value k| = |(num / den : ℚ) - value m| → Even m) := by
  obtain ⟨s, r, rounded, found⟩ := roundsOnGrid_nearest num h
  refine ⟨s * 2 ^ 52 + r, found, fun k hk => ?_⟩
  have one : (0 : ℚ) < unitsInOne := Nat.cast_pos.mpr unitsInOne_pos
  have scaled : ∀ m, |(num / den : ℚ) - value m| =
      |(num * unitsInOne / den : ℚ) - units m| / unitsInOne := fun m => by
    have unscaled : (num / den : ℚ) = num * unitsInOne / den / unitsInOne := by
      rw [div_right_comm, mul_div_cancel_right₀ _ one.ne']
    rw [value_eq, unscaled, ← sub_div, abs_div, abs_of_pos one]
  obtain ⟨near, tie⟩ := rounded.nearest hk
  rw [scaled, scaled]
  exact ⟨div_le_div_of_nonneg_right near one.le, fun same => tie ((div_left_inj' one.ne').mp same)⟩

/-- The midpoint from which on ratios overflow lies between two magnitudes of which infinity is the even one. -/
theorem infinity_le_iff {q : ℚ} {m : Nat} (near : ∀ k, k ≠ m → |q - value m| ≤ |q - value k| ∧
    (|q - value k| = |q - value m| → Even m)) : infinity ≤ m ↔ 2 ^ 1024 - 2 ^ 970 ≤ q := by
  have midpoint : 2 * ((2 : ℚ) ^ 1024 - 2 ^ 970) = value infinity + value (infinity - 1) := by
    have double : (2 : ℚ) ^ 971 = 2 * 2 ^ 970 := by rw [pow_succ' 2 970]
    rw [value_infinity, value_greatest, double]
    generalize (2 : ℚ) ^ 1024 = top, (2 : ℚ) ^ 970 = step
    ring
  have positive : infinity - 1 < infinity := by decide
  have order := strictMono_value positive
  generalize (2 : ℚ) ^ 1024 - 2 ^ 970 = half at midpoint ⊢
  constructor
  · intro hm
    by_contra below
    have := (near (infinity - 1) (by omega)).1
    have := strictMono_value.monotone hm
    have closer : |q - value (infinity - 1)| < value infinity - q := abs_lt.mpr ⟨by linarith, by linarith⟩
    have := neg_le_abs (q - value m)
    linarith
  · intro hq
    by_contra hm
    obtain ⟨closer, tie⟩ := near infinity (by omega)
    have last := strictMono_value.monotone (show m ≤ infinity - 1 by omega)
    have above : |q - value infinity| ≤ q - value (infinity - 1) := abs_le.mpr ⟨by linarith, by linarith⟩
    have := le_abs_self (q - value m)
    have same : value m = value (infinity - 1) := by linarith
    have odd : ¬ Even (infinity - 1) := by decide
    exact odd (strictMono_value.injective same ▸ tie (by linarith))

theorem isNearest_nearest (num : Nat) {den : Nat} (h : 0 < den) : IsNearest (num / den) (nearest num den) := by
  obtain ⟨m, found, near⟩ := exists_nearest_value num h
  have overflow := infinity_le_iff near
  have finite : (num / den : ℚ) < 2 ^ 1024 - 2 ^ 970 → nearest num den = m := fun hq =>
    found.trans (Nat.min_eq_right (Nat.le_of_not_le (mt overflow.mp (not_le.mpr hq))))
  refine ⟨fun hq => ?_, fun hq => ?_, fun hq k _ => ?_, fun hq k _ hk same => ?_⟩
  · exact found.trans (Nat.min_eq_left (overflow.mpr hq))
  · rw [finite hq]
    exact Nat.lt_of_not_le (mt overflow.mp (not_le.mpr hq))
  · rw [finite hq]
    by_cases hk : k = m
    · rw [hk]
    · exact (near k hk).1
  · rw [finite hq] at hk same ⊢
    exact (near k hk).2 same

/-- Of two different magnitudes that are both nearest one would be odd, or there would be a nearer one between. -/
theorem IsNearest.le {q : ℚ} {m m' : Nat} (h : IsNearest q m) (h' : IsNearest q m') : m' ≤ m := by
  rcases le_or_gt (2 ^ 1024 - 2 ^ 970) q with hq | hq
  · rw [h.overflow hq, h'.overflow hq]
  · by_contra above
    have hm := h.finite hq
    have hm' := h'.finite hq
    have same := le_antisymm (h.nearest hq m' hm') (h'.nearest hq m hm)
    have even := h.even hq m' hm' (by omega) same.symm
    have even' := h'.even hq m hm (by omega) same
    have between : m + 1 < m' := by
      rw [Nat.even_iff] at even even'
      omega
    have low := strictMono_value (Nat.lt_succ_self m)
    have high := strictMono_value between
    have middle : 2 * q = value m + value m' := by
      rcases abs_eq_abs.mp same with same | same <;> linarith
    have closer : |q - value (m + 1)| < value m' - q := abs_lt.mpr ⟨by linarith, by linarith⟩
    have := h'.nearest hq (m + 1) (by omega)
    have := neg_le_abs (q - value m')
    linarith

theorem IsNearest.unique {q : ℚ} {m m' : Nat} (h : IsNearest q m) (h' : IsNearest q m') : m = m' :=
  Nat.le_antisymm (h'.le h) (h.le h')

theorem isNearest_iff {num den m : Nat} (h : 0 < den) : IsNearest (num / den) m ↔ m = nearest num den := by
  constructor
  · exact fun hm => hm.unique (isNearest_nearest num h)
  · rintro rfl
    exact isNearest_nearest num h

end Binary64

end LslScript
