import LslScript.Proofs.Bracketed
import LslScript.Proofs.Rounding
import Mathlib.Data.Rat.Cast.Order
import Mathlib.Algebra.Order.Field.Rat

/-!
# Numbers that are read back

A number in positional notation is a decimal that is read as this number, with its sign (`exists_spelled_text`). An
exponent, an infinity and what is no number are written with a letter, so no literal has one of them. The texts of
vectors and rotations are read back as they were exactly if all components are written positionally
(`Bracketed.ofText_text_iff`).
-/

namespace LslScript

open Decimal (Digits)

namespace Binary64

theorem significant_append_zeros (t : Text) : ∃ n, t = significant t ++ List.replicate n '0' := by
  refine ⟨(t.rtakeWhile (· == '0')).length, ?_⟩
  have zeros : ∀ c ∈ t.rtakeWhile (· == '0'), c = '0' := fun c hc => by
    simpa using List.mem_rtakeWhile_imp hc
  rw [← List.eq_replicate_of_mem zeros]
  exact List.rdropWhile_append_rtakeWhile.symm

theorem ofDigitChars_zeros (t : Text) (n : Nat) :
    Nat.ofDigitChars 10 (t ++ List.replicate n '0') 0 = 10 ^ n * Nat.ofDigitChars 10 t 0 := by
  rw [Nat.ofDigitChars_append, Nat.ofDigitChars_replicate_zero]

theorem significant_ne_nil {n : Nat} (h : n ≠ 0) : significant (Nat.toDigits 10 n) ≠ [] := by
  intro hs
  obtain ⟨k, hk⟩ := significant_append_zeros (Nat.toDigits 10 n)
  rw [hs] at hk
  have value := ofDigitChars_zeros [] k
  rw [← hk, Nat.ofDigitChars_ten_toDigits] at value
  simp at value
  exact h value

theorem digits_toDigits (n : Nat) : Digits (Nat.toDigits 10 n) := fun _ hc =>
  Nat.isDigit_of_mem_toDigits (by decide) (by decide) hc

theorem Digits.significant {t : Text} (h : Digits t) : Digits (significant t) := by
  obtain ⟨n, hn⟩ := significant_append_zeros t
  intro c hc
  apply h
  rw [hn]
  exact List.mem_append_left _ hc

/-- A one in front keeps the zeros behind it. -/
theorem exists_toDigits_padded : ∀ (k : Nat) {r : Nat}, r < 10 ^ k →
    ∃ ds, Nat.toDigits 10 (10 ^ k + r) = '1' :: ds ∧ ds.length = k
  | 0, r, h => by
    have : r = 0 := by omega
    subst this
    exact ⟨[], rfl, rfl⟩
  | k + 1, r, h => by
    rw [Nat.pow_succ] at h ⊢
    obtain ⟨ds, hds, hk⟩ := exists_toDigits_padded k (r := r / 10) (by omega)
    have front : (10 ^ k * 10 + r) / 10 = 10 ^ k + r / 10 := by omega
    have large : 10 ≤ 10 ^ k * 10 + r := by
      have := Nat.pow_pos (n := k) (show 0 < 10 by decide)
      omega
    refine ⟨ds ++ [((10 ^ k * 10 + r) % 10).digitChar], ?_, by simp [hk]⟩
    rw [Nat.toDigits_of_base_le (by decide) large, front, hds, List.cons_append]

theorem significant_fraction {k r : Nat} (h : r < 10 ^ k) :
    let digits := significant (Nat.toDigits 10 (10 ^ k + r)).tail
    Digits digits ∧ Nat.ofDigitChars 10 digits 0 * 10 ^ k = r * 10 ^ digits.length := by
  intro digits
  obtain ⟨ds, hds, hk⟩ := exists_toDigits_padded k h
  have tail : digits = significant ds := by simp [digits, hds]
  have value : Nat.ofDigitChars 10 ds 0 = r := by
    have whole := Nat.ofDigitChars_ten_toDigits (n := 10 ^ k + r)
    rw [hds, Nat.ofDigitChars_cons, Nat.ofDigitChars_eq_ofDigitChars_zero, hk] at whole
    simpa using whole
  have all : Digits ds := fun c hc => digits_toDigits (10 ^ k + r) c (hds ▸ List.mem_cons_of_mem _ hc)
  obtain ⟨n, hn⟩ := significant_append_zeros ds
  rw [tail]
  refine ⟨Digits.significant all, ?_⟩
  have length : k = (significant ds).length + n := by
    have := congrArg List.length hn
    simpa [hk] using this
  rw [hn, ofDigitChars_zeros] at value
  rw [← value, length, Nat.pow_add]
  ring

theorem exists_decimalUnit_eq : ∃ k, decimalUnit = 10 ^ k := by
  delta decimalUnit
  generalize 1074 = k
  exact ⟨k, Nat.pow_eq⟩

theorem positional_cases (decimal : Nat) :
    let digits := significant (Nat.toDigits 10 (decimalUnit + decimal % decimalUnit)).tail
    let front := Text.ofNat (decimal / decimalUnit)
    (digits = [] ∧ positional decimal = front ++ ['.', '0']) ∨ positional decimal = front ++ '.' :: digits := by
  unfold positional
  simp only
  split
  · rename_i hs
    exact .inl ⟨hs, by simp⟩
  · exact .inr (by simp)

/-- The digits of a positional text, with its point taken out, have the value of the decimal. -/
theorem exists_positional (decimal : Nat) : ∃ whole fraction, Digits whole ∧ whole ≠ [] ∧ Digits fraction ∧
    positional decimal = whole ++ '.' :: fraction ∧
    Nat.ofDigitChars 10 (whole ++ fraction) 0 * decimalUnit = decimal * 10 ^ fraction.length := by
  have front : Nat.ofDigitChars 10 (Text.ofNat (decimal / decimalUnit)) 0 = decimal / decimalUnit :=
    Nat.ofDigitChars_ten_toDigits
  have parts : ∀ fraction : Text,
      Nat.ofDigitChars 10 fraction 0 * decimalUnit = decimal % decimalUnit * 10 ^ fraction.length →
      Nat.ofDigitChars 10 (Text.ofNat (decimal / decimalUnit) ++ fraction) 0 * decimalUnit =
        decimal * 10 ^ fraction.length := by
    intro fraction hf
    rw [Nat.ofDigitChars_append, Nat.ofDigitChars_eq_ofDigitChars_zero, front, Nat.add_mul, hf]
    calc 10 ^ fraction.length * (decimal / decimalUnit) * decimalUnit + decimal % decimalUnit * 10 ^ fraction.length
      _ = (decimal / decimalUnit * decimalUnit + decimal % decimalUnit) * 10 ^ fraction.length := by ring
      _ = decimal * 10 ^ fraction.length := by rw [Nat.div_add_mod']
  obtain ⟨k, unit⟩ := exists_decimalUnit_eq
  have behind : decimal % decimalUnit < 10 ^ k := unit ▸ Nat.mod_lt _ decimalUnit_pos
  obtain ⟨digits, value⟩ := significant_fraction behind
  rw [← unit] at digits value
  rcases positional_cases decimal with ⟨hs, hp⟩ | hp
  · rw [hs] at value
    refine ⟨_, ['0'], digits_toDigits _, Nat.toDigits_ne_nil, by simp [Digits], hp, parts ['0'] ?_⟩
    have zero : Nat.ofDigitChars 10 ['0'] 0 = 0 := rfl
    simp at value
    simp [zero, ← value]
  · exact ⟨_, _, digits_toDigits _, Nat.toDigits_ne_nil, digits, hp, parts _ value⟩

/-! ## Positional notation -/

def absolute (x : Binary64) : ℚ := units x.magnitude / unitsInOne

/-- A number of a size that is written without an exponent. -/
def IsPlain (x : Binary64) : Prop :=
  x.magnitude = 0 ∨ x.magnitude < infinity ∧ 1 / 10 ^ 4 ≤ x.absolute ∧ x.absolute < 10 ^ 16

theorem le_absolute_iff (x : Binary64) : 1 / 10 ^ 4 ≤ x.absolute ↔ positionalRange.1 ≤ x.magnitude := by
  have low : unitsInOne ≤ units positionalRange.1 * 10 ^ 4 := by decide +kernel
  have below : units (positionalRange.1 - 1) * 10 ^ 4 < unitsInOne := by decide +kernel
  have one : (0 : ℚ) < unitsInOne := Nat.cast_pos.mpr unitsInOne_pos
  have cast : 1 / 10 ^ 4 ≤ x.absolute ↔ unitsInOne ≤ units x.magnitude * 10 ^ 4 := by
    rw [absolute, div_le_div_iff₀ (by norm_num) one, one_mul]
    exact_mod_cast Iff.rfl
  rw [cast]
  constructor
  · intro h
    by_contra hm
    have small := strictMono_units.monotone (Nat.le_sub_one_of_lt (Nat.lt_of_not_le hm))
    exact Nat.not_le.mpr below (h.trans (Nat.mul_le_mul_right _ small))
  · intro h
    exact low.trans (Nat.mul_le_mul_right _ (strictMono_units.monotone h))

theorem absolute_lt_iff (x : Binary64) : x.absolute < 10 ^ 16 ↔ x.magnitude < positionalRange.2 := by
  have high : units positionalRange.2 = 10 ^ 16 * unitsInOne := by decide +kernel
  have one : (0 : ℚ) < unitsInOne := Nat.cast_pos.mpr unitsInOne_pos
  rw [absolute, div_lt_iff₀ one, ← strictMono_units.lt_iff_lt, high]
  exact_mod_cast Iff.rfl

theorem isPositional_iff (x : Binary64) : isPositional x.magnitude = true ↔ x.IsPlain := by
  have finite : positionalRange.2 < infinity := by decide +kernel
  rw [IsPlain, le_absolute_iff, absolute_lt_iff, isPositional]
  simp only [Bool.or_eq_true, beq_iff_eq, Bool.and_eq_true, decide_eq_true_eq]
  generalize positionalRange = range at finite ⊢
  omega

theorem IsPlain.finite {x : Binary64} (h : x.IsPlain) : x.magnitude < infinity := by
  rcases h with h | h
  · rw [h]
    decide +kernel
  · exact h.1

theorem exists_spelled_text {x : Binary64} (h : x.IsPlain) :
    ∃ d : Decimal, d.SpelledBy x.text ∧ d.toBinary64 = x := by
  obtain ⟨whole, fraction, hw, hne, hf, hp, value⟩ := exists_positional (shortest x.magnitude)
  have digits : magnitudeText x.magnitude = whole ++ '.' :: fraction := by
    rw [magnitudeText, if_neg (Nat.ne_of_lt h.finite), if_pos ((isPositional_iff x).mpr h), hp]
  have number : ¬ infinity < x.magnitude := Nat.not_lt.mpr (Nat.le_of_lt h.finite)
  have read : nearest (Nat.ofDigitChars 10 (whole ++ fraction) 0) (Nat.pow 10 fraction.length) = x.magnitude := by
    rw [Nat.pow_eq, nearest_eq_of_mul_eq (Nat.pow_pos (by decide)) decimalUnit_pos value, nearest_shortest h.finite]
  refine ⟨⟨x.negative, Nat.ofDigitChars 10 (whole ++ fraction) 0, fraction.length⟩, ?_, ?_⟩
  · have spelled := Decimal.DigitsSpelledBy.point hw hne hf
    by_cases hn : x.negative = true
    · refine ⟨['-'], whole, fraction, _, ?_, spelled, rfl, rfl, ?_⟩
      · simp only [hn]
        exact .minus
      · rw [text, if_neg number, if_pos hn, digits]
        rfl
    · refine ⟨[], whole, fraction, _, ?_, spelled, rfl, rfl, ?_⟩
      · simp only [hn]
        exact .none
      · rw [text, if_neg number, if_neg hn, digits]
        rfl
  · obtain ⟨negative, magnitude, bound⟩ := x
    simp only [Decimal.toBinary64, ofRatio, read]

theorem e_mem_scientific {decimal : Nat} (h : decimal ≠ 0) : 'e' ∈ scientific decimal := by
  have nonempty := significant_ne_nil h
  unfold scientific
  simp only
  split
  · rename_i hs
    exact absurd hs nonempty
  · simp
  · simp

/-- A letter gives away that a number is not written positionally. -/
theorem exists_letter {x : Binary64} (h : ¬ x.IsPlain) : ∃ c ∈ x.text, c ∈ ['e', 'i', 'N'] := by
  have signed : ∀ {c}, c ∈ magnitudeText x.magnitude → ¬ infinity < x.magnitude → c ∈ x.text := by
    intro c hc hn
    rw [text, if_neg hn]
    split
    · exact List.mem_cons_of_mem _ hc
    · exact hc
  by_cases hn : infinity < x.magnitude
  · refine ⟨'N', ?_, by simp⟩
    rw [text, if_pos hn]
    decide
  · by_cases hi : x.magnitude = infinity
    · refine ⟨'i', signed ?_ hn, by simp⟩
      rw [magnitudeText, if_pos hi]
      decide
    · have finite : x.magnitude < infinity := Nat.lt_of_le_of_ne (Nat.le_of_not_lt hn) hi
      have positional : ¬ isPositional x.magnitude = true := fun hp => h ((isPositional_iff x).mp hp)
      refine ⟨'e', signed ?_ hn, by simp⟩
      rw [magnitudeText, if_neg hi, if_neg positional]
      -- only a zero has no digit in front of the exponent, and a zero is plain
      apply e_mem_scientific
      intro zero
      have read := nearest_shortest finite
      rw [zero] at read
      exact h (.inl (read.symm.trans (by decide +kernel)))

end Binary64

/-! ## Texts of literals -/

namespace Bracketed
variable {literal : Bracketed} {ds : List Decimal} {xs : List Binary64}

theorem SpelledBy.not_mem {raw : Text} {c : Char} (h : literal.SpelledBy ds raw) (hc : isPartChar c = false)
    (hb : c ∉ ['<', ',', '>']) : c ∉ raw := by
  obtain ⟨-, before, t, after, hbefore, hds, hafter, rfl⟩ := h
  have blank : isBlankChar c = false := by
    simp only [isPartChar, Bool.or_eq_false_iff] at hc
    exact hc.1
  have outside : ∀ {u : Text}, Text.isBlank u = true → c ∉ u := Text.not_mem_of_isBlank blank
  have inside := hds.not_mem hc (by simp at hb; exact hb.2.1)
  simp at hb
  simp [outside hbefore, outside hafter, inside, hb]

theorem partsSpelledBy_intercalate : ∀ {xs : List Binary64} {ds : List Decimal}, xs ≠ [] →
    List.Forall₂ (fun x d => Decimal.SpelledBy d x.text) xs ds →
    PartsSpelledBy ds (List.intercalate ",".toList (xs.map Binary64.text))
  | [], _, h, _ => absurd rfl h
  | [x], _, _, .cons hd .nil => by
    rw [List.map_singleton, List.intercalate_singleton]
    exact .last ⟨[], _, [], rfl, hd, rfl, by simp⟩
  | x :: y :: xs, _, _, .cons hd hds => by
    have rest := partsSpelledBy_intercalate (List.cons_ne_nil y xs) hds
    rw [List.map_cons, List.map_cons, List.intercalate_cons_cons, List.append_assoc]
    exact .cons ⟨[], _, [], rfl, hd, rfl, by simp⟩ rest

theorem components_text (hl : xs.length = literal.size) (h : ∀ x ∈ xs, x.IsPlain) :
    literal.components (text xs) = .ok xs := by
  have decimals : ∃ ds, List.Forall₂ (fun x d => Decimal.SpelledBy d x.text ∧ d.toBinary64 = x) xs ds := by
    clear hl
    induction xs with
    | nil => exact ⟨[], .nil⟩
    | cons x xs ih =>
      obtain ⟨hx, hxs⟩ := List.forall_mem_cons.mp h
      obtain ⟨d, hd⟩ := Binary64.exists_spelled_text hx
      obtain ⟨ds, hds⟩ := ih hxs
      exact ⟨d :: ds, .cons hd hds⟩
  obtain ⟨ds, hds⟩ := decimals
  have nonempty : xs ≠ [] := by
    rintro rfl
    cases literal <;> cases hl
  -- the text is spelled without any blanks
  have spelled : literal.SpelledBy ds (text xs) := by
    refine ⟨hds.length_eq.symm.trans hl, [], _, [], rfl,
      partsSpelledBy_intercalate nonempty (hds.imp fun _ _ hd => hd.1), rfl, ?_⟩
    simp [text]
  have values : ds.map Decimal.toBinary64 = xs := by
    clear * - hds
    induction hds with
    | nil => rfl
    | cons hd _ ih => rw [List.map_cons, hd.2, ih]
  rw [components_of_spelled spelled, values]

theorem mem_intercalate {sep t : Text} {c : Char} (hc : c ∈ t) : ∀ {ts : List Text}, t ∈ ts →
    c ∈ List.intercalate sep ts
  | [u], ht => by
    rw [List.intercalate_singleton, ← List.mem_singleton.mp ht]
    exact hc
  | u :: v :: ts, ht => by
    rw [List.intercalate_cons_cons]
    by_cases hu : t = u
    · simp [← hu, hc]
    · exact List.mem_append_right _ (mem_intercalate hc (by simpa [hu] using ht))

theorem mem_text {x : Binary64} {c : Char} (hx : x ∈ xs) (hc : c ∈ x.text) : c ∈ text xs :=
  List.mem_append_left _ (List.mem_append_right _ (mem_intercalate hc (List.mem_map_of_mem hx)))

theorem isPlain_of_components (h : ∃ ys, literal.components (text xs) = .ok ys) : ∀ x ∈ xs, x.IsPlain := by
  intro x hx
  by_contra hp
  obtain ⟨c, hc, letter⟩ := Binary64.exists_letter hp
  obtain ⟨ds, hds⟩ := ((readBy_components literal).succeeds (text xs)).mp h
  have other : isPartChar c = false ∧ c ∉ ['<', ',', '>'] := by
    simp only [List.mem_cons, List.not_mem_nil, or_false] at letter
    rcases letter with rfl | rfl | rfl <;> decide
  exact hds.not_mem other.1 other.2 (mem_text hx hc)

/-- What reads the numbers of a literal one by one reads back what was written, or nothing. -/
theorem read_text_iff {α : Type} {read : Text → Except Fault α} {numbers : α → List Binary64} {v : α}
    (hr : ∀ raw, (read raw).map numbers = literal.components raw) (hi : Function.Injective numbers)
    (hl : (numbers v).length = literal.size) :
    ((∃ w, read (text (numbers v)) = .ok w) ↔ ∀ x ∈ numbers v, x.IsPlain) ∧
      (read (text (numbers v)) = .ok v ↔ ∀ x ∈ numbers v, x.IsPlain) := by
  have plain : (∃ w, read (text (numbers v)) = .ok w) → ∀ x ∈ numbers v, x.IsPlain := by
    intro ⟨w, hw⟩
    have parsed : ∃ ys, literal.components (text (numbers v)) = .ok ys := by
      rw [← hr, hw]
      exact ⟨numbers w, rfl⟩
    exact isPlain_of_components parsed
  have back : (∀ x ∈ numbers v, x.IsPlain) → read (text (numbers v)) = .ok v := by
    intro h
    have written := components_text hl h
    rw [← hr] at written
    cases hw : read (text (numbers v)) with
    | error fault => simp [hw, Except.map] at written
    | ok w =>
      simp only [hw, Except.map, Except.ok.injEq] at written
      rw [hi written]
  exact ⟨⟨plain, fun h => ⟨v, back h⟩⟩, ⟨fun h => plain ⟨v, h⟩, back⟩⟩

end Bracketed

theorem Vector.components_injective : Function.Injective components := by
  intro ⟨x, y, z⟩ ⟨x', y', z'⟩ h
  simp only [components, List.cons.injEq] at h
  simp [h]

theorem Rotation.components_injective : Function.Injective components := by
  intro ⟨x, y, z, s⟩ ⟨x', y', z', s'⟩ h
  simp only [components, List.cons.injEq] at h
  simp [h]

/-- The text of a vector or a rotation is read exactly if each component is a zero or is written without an
exponent, and then it is read as the vector or rotation that it was written for. -/
theorem Bracketed.ofText_text_iff :
    (∀ v : Vector, ((∃ w, Vector.ofText v.text = .ok w) ↔ ∀ x ∈ v.components, x.IsPlain) ∧
      (Vector.ofText v.text = .ok v ↔ ∀ x ∈ v.components, x.IsPlain)) ∧
    ∀ r : Rotation, ((∃ w, Rotation.ofText r.text = .ok w) ↔ ∀ x ∈ r.components, x.IsPlain) ∧
      (Rotation.ofText r.text = .ok r ↔ ∀ x ∈ r.components, x.IsPlain) :=
  ⟨fun _ => read_text_iff Vector.components_ofText Vector.components_injective rfl,
    fun _ => read_text_iff Rotation.components_ofText Rotation.components_injective rfl⟩

example : let v : Vector := ⟨.ofBits 0x8000000000000000, .ofBits 0x3F1A36E2EB1C432D, .ofBits 0x4341C37937E07FFF⟩
    v.text = "<-0.0,0.0001,9999999999999998.0>".toList := by decide +kernel

end LslScript
