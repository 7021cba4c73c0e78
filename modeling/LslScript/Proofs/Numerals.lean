import LslScript.Json.Printer
import LslScript.Json.Token
import LslScript.Proofs.Text

/-!
# Numerals

How a number may be written. A number is kept as it is written, but for the letter and the plus sign of its
exponent, so the reader gives back what was spelled (`SpelledBy.read`).
-/

namespace LslScript.JsonNumber

def IsDigits (ds : Text) : Prop := ds ≠ [] ∧ ∀ c ∈ ds, c.isDigit = true

/-- A zero stands at the front only if it stands alone. -/
def IsWhole (ds : Text) : Prop := IsDigits ds ∧ (ds.head? = some '0' → ds = ['0'])

inductive SignSpelledBy : Bool → Text → Prop
  | none : SignSpelledBy false []
  | minus : SignSpelledBy true ['-']

inductive FractionSpelledBy : Option Text → Text → Prop
  | none : FractionSpelledBy none []
  | some {ds : Text} : IsDigits ds → FractionSpelledBy (some ds) ('.' :: ds)

inductive ExponentSpelledBy : Option (Bool × Text) → Text → Prop
  | none : ExponentSpelledBy none []
  | bare {e : Char} {ds : Text} : e = 'e' ∨ e = 'E' → IsDigits ds → ExponentSpelledBy (some (false, ds)) (e :: ds)
  | plus {e : Char} {ds : Text} : e = 'e' ∨ e = 'E' → IsDigits ds →
    ExponentSpelledBy (some (false, ds)) (e :: '+' :: ds)
  | minus {e : Char} {ds : Text} : e = 'e' ∨ e = 'E' → IsDigits ds →
    ExponentSpelledBy (some (true, ds)) (e :: '-' :: ds)

def SpelledBy (n : JsonNumber) (t : Text) : Prop :=
  IsWhole n.whole ∧ ∃ sign fraction exponent, SignSpelledBy n.negative sign ∧
    FractionSpelledBy n.fraction fraction ∧ ExponentSpelledBy n.exponent exponent ∧
    t = sign ++ (n.whole ++ (fraction ++ exponent))

/-! ## Reading -/

def Stops (rest : Text) : Prop := ∀ c ∈ rest.head?, c.isDigit = false ∧ c ≠ '.' ∧ c ≠ 'e' ∧ c ≠ 'E'

theorem stops_nil : Stops [] := nofun

variable {ds rest : Text}

theorem IsDigits.append_ne {c : Char} (h : IsDigits ds) (hc : c.isDigit = false) (u : Text) :
    ds ++ rest ≠ c :: u := by
  obtain ⟨d, ds, rfl⟩ := List.exists_cons_of_ne_nil h.1
  intro he
  obtain ⟨rfl, -⟩ := List.cons.inj he
  rw [h.2 d (List.mem_cons_self ..)] at hc
  cases hc

theorem digits?_append (h : IsDigits ds) (hr : ∀ c ∈ rest.head?, c.isDigit = false) :
    digits? (ds ++ rest) = some (ds, rest) := by
  obtain ⟨front, back⟩ := Text.span_append h.2 hr
  rw [digits?, front, back, if_neg (by simpa using h.1)]

theorem whole?_append (h : IsWhole ds) (hr : ∀ c ∈ rest.head?, c.isDigit = false) :
    whole? (ds ++ rest) = some (ds, rest) := by
  rw [whole?, digits?_append h.1 hr]
  split
  · next c ds' rest' he =>
    cases he
    cases h.2 rfl
  · rfl

theorem fraction?_append {fraction : Option Text} {t : Text} (h : FractionSpelledBy fraction t)
    (hr : ∀ c ∈ rest.head?, c.isDigit = false ∧ c ≠ '.') :
    fraction? (t ++ rest) = some (fraction, rest) := by
  cases h with
  | none =>
    rw [List.nil_append, fraction?]
    rintro rest' rfl
    exact (hr '.' rfl).2 rfl
  | some hd =>
    rw [List.cons_append, fraction?, digits?_append hd fun c hc => (hr c hc).1]
    rfl

theorem exponent?_append {exponent : Option (Bool × Text)} {t : Text} (h : ExponentSpelledBy exponent t)
    (hr : Stops rest) : exponent? (t ++ rest) = some (exponent, rest) := by
  have digits : ∀ {ds}, IsDigits ds → digits? (ds ++ rest) = some (ds, rest) := fun hd =>
    digits?_append hd fun c hc => (hr c hc).1
  -- the letter is passed over, then comes a sign or not
  have letter : ∀ {e : Char} {u : Text}, e = 'e' ∨ e = 'E' →
      exponent? (e :: u) = (signedDigits? u).map fun r => (some r.1, r.2) := by
    rintro e u (rfl | rfl) <;> rfl
  cases h with
  | none =>
    rw [List.nil_append, exponent?]
    · rintro rest' rfl; exact (hr 'e' rfl).2.2.1 rfl
    · rintro rest' rfl; exact (hr 'E' rfl).2.2.2 rfl
  | @bare e ds he hd =>
    rw [List.cons_append, letter he, signedDigits?, digits hd]
    · rfl
    · exact hd.append_ne rfl
    · exact hd.append_ne rfl
  | plus he hd =>
    rw [List.cons_append, letter he, List.cons_append, signedDigits?, digits hd]
    rfl
  | minus he hd =>
    rw [List.cons_append, letter he, List.cons_append, signedDigits?, digits hd]
    rfl

theorem SpelledBy.read {n : JsonNumber} {t : Text} (h : n.SpelledBy t) (hr : Stops rest) :
    read? (t ++ rest) = some (n, rest) := by
  obtain ⟨negative, whole, fraction, exponent⟩ := n
  obtain ⟨hw, s, f, x, hs, hf, hx, rfl⟩ := h
  -- what stands behind each part does not go on with it
  have behindFraction : ∀ c ∈ (x ++ rest).head?, c.isDigit = false ∧ c ≠ '.' := by
    cases hx with
    | none => exact fun c hc => ⟨(hr c hc).1, (hr c hc).2.1⟩
    | bare he _ | plus he _ | minus he _ =>
      rintro c ⟨⟩
      rcases he with rfl | rfl <;> decide
  have behindWhole : ∀ c ∈ (f ++ (x ++ rest)).head?, c.isDigit = false := by
    cases hf with
    | none => exact fun c hc => (behindFraction c hc).1
    | some _ =>
      rintro c ⟨⟩
      rfl
  have parts : whole? (whole ++ (f ++ (x ++ rest))) = some (whole, f ++ (x ++ rest)) :=
    whole?_append hw behindWhole
  simp only [List.append_assoc]
  cases hs with
  | none =>
    rw [List.nil_append, read?.eq_def]
    split
    next negative t hu =>
    split at hu
    · next u hm => exact absurd hm (hw.1.append_ne rfl _)
    · cases hu
      simp [parts, fraction?_append hf behindFraction, exponent?_append hx hr]
  | minus =>
    rw [List.cons_append, read?.eq_def]
    simp [parts, fraction?_append hf behindFraction, exponent?_append hx hr]

theorem SpelledBy.exists_cons {n : JsonNumber} {t : Text} (h : n.SpelledBy t) :
    ∃ c u, t = c :: u ∧ (c = '-' ∨ c.isDigit = true) := by
  obtain ⟨negative, whole, fraction, exponent⟩ := n
  obtain ⟨hw, s, f, x, hs, -, -, rfl⟩ := h
  obtain ⟨d, ds, hd⟩ := List.exists_cons_of_ne_nil hw.1.1
  cases hs with
  | none =>
    have first : d.isDigit = true := hw.1.2 d (hd ▸ List.mem_cons_self ..)
    exact ⟨d, ds ++ (f ++ x), congrArg (· ++ (f ++ x)) hd, Or.inr first⟩
  | minus => exact ⟨'-', _, rfl, Or.inl rfl⟩

theorem isDigits_ofNat (n : Nat) : IsDigits (Text.ofNat n) :=
  ⟨Nat.toDigits_ne_nil, fun _ hc => Nat.isDigit_of_mem_toDigits (by decide) (by decide) hc⟩

theorem head?_ofNat_ne {n : Nat} (h : 0 < n) : (Text.ofNat n).head? ≠ some '0' := by
  induction n using Nat.strongRecOn with
  | ind n ih =>
    by_cases hn : n < 10
    · have nonzero : ∀ d < 10, 0 < d → d.digitChar ≠ '0' := by decide
      rw [Text.ofNat, Nat.toDigits_of_lt_base hn]
      simpa using nonzero n hn h
    · have front : Nat.toDigits 10 n = Nat.toDigits 10 (n / 10) ++ [(n % 10).digitChar] :=
        Nat.toDigits_of_base_le (by decide) (Nat.le_of_not_lt hn)
      obtain ⟨c, t, ht⟩ := List.exists_cons_of_ne_nil (Nat.toDigits_ne_nil (n := n / 10) (b := 10))
      have := ih (n / 10) (by omega) (by omega)
      rw [Text.ofNat, ht] at this
      rwa [Text.ofNat, front, ht]

theorem isWhole_ofNat (n : Nat) : IsWhole (Text.ofNat n) := by
  refine ⟨isDigits_ofNat n, fun h => ?_⟩
  rcases Nat.eq_zero_or_pos n with rfl | hn
  · rfl
  · exact absurd h (head?_ofNat_ne hn)

theorem spelledBy_ofInt (i : Int) : (ofInt i).SpelledBy (ofInt i).text := by
  refine ⟨isWhole_ofNat _, if i < 0 then ['-'] else [], [], [], ?_, .none, .none, ?_⟩
  · by_cases h : i < 0
    · simpa [ofInt, h] using SignSpelledBy.minus
    · simpa [ofInt, h] using SignSpelledBy.none
  · by_cases h : i < 0 <;> simp [text, ofInt, h]

theorem toInt?_ofInt (i : Int) : (ofInt i).toInt? = some i := by
  have size : Nat.ofDigitChars 10 (Text.ofNat i.natAbs) 0 = i.natAbs := Nat.ofDigitChars_ten_toDigits
  unfold toInt? ofInt
  by_cases h : i < 0
  · have nonzero : i.natAbs ≠ 0 := by omega
    simp only [h, size, decide_true, if_true, if_neg nonzero, Option.some.injEq]
    omega
  · simp only [h, size, decide_false, Bool.false_eq_true, if_false, Option.some.injEq]
    omega

theorem le_ofDigitChars : ∀ (t : Text) (n : Nat), n ≤ Nat.ofDigitChars 10 t n
  | [], _ => Nat.le_refl _
  | c :: t, n => by
    rw [Nat.ofDigitChars_cons]
    exact Nat.le_trans (by omega) (le_ofDigitChars t _)

/-- Digits are all taken in if the number that they come to is small enough. -/
theorem extend_of_lt : ∀ {t : Text} {n : Nat}, Nat.ofDigitChars 10 t n < Nat.pow 2 64 →
    extend n t = (Nat.ofDigitChars 10 t n, 0)
  | [], n, _ => rfl
  | c :: t, n, h => by
    rw [Nat.ofDigitChars_cons] at h ⊢
    have here : 10 * n + (c.toNat - '0'.toNat) < Nat.pow 2 64 := Nat.lt_of_le_of_lt (le_ofDigitChars t _) h
    rw [extend, Nat.ofDigitChars_cons, Nat.ofDigitChars_nil, if_pos here, extend_of_lt h]

theorem isFinite_ofInt {i : Int} (h : i.natAbs < Nat.pow 2 64) : (ofInt i).isFinite = true := by
  have size : Nat.ofDigitChars 10 (Text.ofNat i.natAbs) 0 = i.natAbs := Nat.ofDigitChars_ten_toDigits
  have whole : extend 0 (Text.ofNat i.natAbs) = (i.natAbs, 0) := by
    rw [extend_of_lt (size.symm ▸ h), size]
  simp [isFinite, scaled, ofInt, whole, extend]

end LslScript.JsonNumber
