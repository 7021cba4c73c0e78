import LslScript.Json.Spelling

/-!
# What stands between quotes

How a string may be written: each character for itself or by an escape, short or by number, and one outside
the basic plane by two numbers. Every way of writing is read back as the text that it spells
(`SpelledBy.read`), and the printer's is one of them (`spelledBy_write`).
-/

namespace LslScript.Spelling

inductive SpelledBy : Text → Text → Prop
  | nil : SpelledBy [] []
  | plain {c : Char} {t w : Text} : c ≠ '"' → c ≠ '\\' → 0x20 ≤ c.toNat →
    SpelledBy t w → SpelledBy (c :: t) (c :: w)
  | short {c e : Char} {t w : Text} : shortEscape? e = some c →
    SpelledBy t w → SpelledBy (c :: t) ('\\' :: e :: w)
  | unit {a b c d : Char} {n : Nat} {t w : Text} :
    codeUnit? a b c d = some n → isHigh n = false → isLow n = false →
    SpelledBy t w → SpelledBy (Char.ofNat n :: t) ('\\' :: 'u' :: a :: b :: c :: d :: w)
  | pair {a b c d a' b' c' d' : Char} {high low : Nat} {t w : Text} :
    codeUnit? a b c d = some high → codeUnit? a' b' c' d' = some low →
    isHigh high = true → isLow low = true → SpelledBy t w →
    SpelledBy (Char.ofNat (0x10000 + (high - 0xD800) * 0x400 + (low - 0xDC00)) :: t)
      ('\\' :: 'u' :: a :: b :: c :: d :: '\\' :: 'u' :: a' :: b' :: c' :: d' :: w)

section
variable {ps : List Piece} {t rest : Text}

theorem pieces?_plain {c : Char} (hq : c ≠ '"') (hb : c ≠ '\\') (hc : 0x20 ≤ c.toNat)
    (h : pieces? t = some (ps, rest)) : pieces? (c :: t) = some (.char c :: ps, rest) := by
  rw [pieces?]
  · rw [if_neg (Nat.not_lt.mpr hc), h]
    rfl
  · exact hq
  · rintro a b c' d r rfl; exact absurd rfl hb
  · rintro e r rfl; exact absurd rfl hb

theorem pieces?_short {c e : Char} (he : shortEscape? e = some c) (h : pieces? t = some (ps, rest)) :
    pieces? ('\\' :: e :: t) = some (.char c :: ps, rest) := by
  rw [pieces?, he, h]
  rintro a b c' d r rfl
  cases he

theorem pieces?_unit {a b c d : Char} {n : Nat} (hn : codeUnit? a b c d = some n)
    (h : pieces? t = some (ps, rest)) :
    pieces? ('\\' :: 'u' :: a :: b :: c :: d :: t) = some (.codeUnit n :: ps, rest) := by
  rw [pieces?, hn, h]

/-- A unit that is no surrogate stands for itself, whatever comes behind it. -/
theorem spell?_unit {n : Nat} (hh : isHigh n = false) (hl : isLow n = false) (ps : List Piece) :
    spell? (.codeUnit n :: ps) = (spell? ps).map (Char.ofNat n :: ·) := by
  cases ps with
  | nil => simp [spell?, hh, hl]
  | cons p ps => cases p <;> simp [spell?, hh, hl]

end

theorem SpelledBy.read {t w : Text} (h : SpelledBy t w) (rest : Text) :
    ∃ ps, pieces? (w ++ '"' :: rest) = some (ps, rest) ∧ spell? ps = some t := by
  induction h with
  | nil => exact ⟨[], rfl, rfl⟩
  | plain hq hb hc _ ih =>
    obtain ⟨ps, hp, hs⟩ := ih
    exact ⟨_, pieces?_plain hq hb hc hp, by rw [spell?, hs]; rfl⟩
  | short he _ ih =>
    obtain ⟨ps, hp, hs⟩ := ih
    exact ⟨_, pieces?_short he hp, by rw [spell?, hs]; rfl⟩
  | unit hn hh hl _ ih =>
    obtain ⟨ps, hp, hs⟩ := ih
    exact ⟨_, pieces?_unit hn hp, by rw [spell?_unit hh hl, hs]; rfl⟩
  | pair hhigh hlow hh hl _ ih =>
    obtain ⟨ps, hp, hs⟩ := ih
    refine ⟨_, pieces?_unit hhigh (pieces?_unit hlow hp), ?_⟩
    rw [spell?, hh, hl, hs]
    rfl

/-! ## Printing -/

theorem hexDigit?_digitChar : ∀ k < 16, hexDigit? (Nat.digitChar k) = some k := by decide

theorem codeUnit?_control {n : Nat} (h : n < 0x20) :
    codeUnit? '0' '0' (Nat.digitChar (n / 16)) (Nat.digitChar (n % 16)) = some n := by
  have zero : hexDigit? '0' = some 0 := by decide
  simp only [codeUnit?, zero, hexDigit?_digitChar (n / 16) (by omega), hexDigit?_digitChar (n % 16) (by omega),
    Option.bind_eq_bind, Option.bind_some, Option.pure_def, Option.some.injEq]
  omega

theorem spelledBy_write (c : Char) {t w : Text} (h : SpelledBy t w) : SpelledBy (c :: t) (write c ++ w) := by
  unfold write
  -- the characters with a short escape come first
  iterate 7
    split
    · next hc => exact hc ▸ .short rfl h
  split
  · next hc =>
    have high : isHigh c.toNat = false := by simp [isHigh]; omega
    have low : isLow c.toNat = false := by simp [isLow]; omega
    have := SpelledBy.unit (codeUnit?_control hc) high low h
    rwa [Char.ofNat_toNat] at this
  · next hq hb _ _ _ _ _ hc => exact .plain hq hb (Nat.not_lt.mp hc) h

theorem spelledBy_flatMap_write : ∀ t : Text, SpelledBy t (t.flatMap write)
  | [] => .nil
  | c :: t => spelledBy_write c (spelledBy_flatMap_write t)

end LslScript.Spelling
