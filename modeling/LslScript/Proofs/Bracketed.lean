import LslScript.Literal.Vector
import LslScript.Proofs.Headers
import LslScript.Proofs.Nearest

/-!
# Bracketed literals

Which texts spell a decimal and which a vector or a rotation. A literal is read in two stages, and what
passes the first one is cut by the second into as many decimals as it takes, so that a text is refused by the
first stage or by none (`Bracketed.ofText_readBy`).
-/

namespace LslScript

/-! ## Decimals -/

namespace Decimal

inductive SignSpelledBy : Bool → Text → Prop
  | none : SignSpelledBy false []
  | plus : SignSpelledBy false ['+']
  | minus : SignSpelledBy true ['-']

def Digits (t : Text) : Prop := ∀ c ∈ t, c.isDigit = true

theorem digits_nil : Digits [] := nofun

inductive DigitsSpelledBy : (whole fraction : Text) → Text → Prop
  | whole {whole : Text} : Digits whole → whole ≠ [] → DigitsSpelledBy whole [] whole
  | point {whole fraction : Text} : Digits whole → whole ≠ [] → Digits fraction →
    DigitsSpelledBy whole fraction (whole ++ '.' :: fraction)
  | fraction {fraction : Text} : Digits fraction → fraction ≠ [] → DigitsSpelledBy [] fraction ('.' :: fraction)

def SpelledBy (d : Decimal) (t : Text) : Prop :=
  ∃ sign whole fraction digits, SignSpelledBy d.negative sign ∧ DigitsSpelledBy whole fraction digits ∧
    d.coefficient = Nat.ofDigitChars 10 (whole ++ fraction) 0 ∧ d.places = fraction.length ∧ t = sign ++ digits

/-- The number next to the value of a decimal, with the decimal's sign even if it is zero. -/
structure RoundsTo (d : Decimal) (x : Binary64) : Prop where
  sign : x.negative = d.negative
  nearest : Binary64.IsNearest (d.coefficient / 10 ^ d.places) x.magnitude

theorem roundsTo_toBinary64 (d : Decimal) : d.RoundsTo d.toBinary64 := by
  have value : (d.coefficient / 10 ^ d.places : ℚ) = d.coefficient / (Nat.pow 10 d.places : Nat) := by
    rw [Nat.pow_eq, Nat.cast_pow, Nat.cast_ofNat]
  refine ⟨rfl, ?_⟩
  rw [value]
  exact Binary64.isNearest_nearest d.coefficient (Nat.pow_pos (by decide))

variable {d : Decimal} {t rest whole fraction digits sign : Text} {negative : Bool}

def isDecimalChar (c : Char) : Bool := c.isDigit || c == '.' || c == '+' || c == '-'

theorem isDecimalChar_of_isDigit {c : Char} (h : c.isDigit = true) : isDecimalChar c = true := by
  simp [isDecimalChar, h]

theorem isBlankChar_of_isDecimalChar {c : Char} (h : isDecimalChar c = true) : isBlankChar c = false := by
  simp only [isDecimalChar, Bool.or_eq_true, beq_iff_eq] at h
  rcases h with ((h | rfl) | rfl) | rfl
  · exact isBlankChar_of_isIdentifierChar (by simp [isIdentifierChar, Char.isAlphanum, h])
  · decide
  · decide
  · decide

theorem SignSpelledBy.mem (h : SignSpelledBy negative sign) {c : Char} (hc : c ∈ sign) :
    isDecimalChar c = true := by
  cases h with
  | none => cases hc
  | plus => rw [List.mem_singleton.mp hc]; decide
  | minus => rw [List.mem_singleton.mp hc]; decide

theorem DigitsSpelledBy.mem (h : DigitsSpelledBy whole fraction digits) {c : Char} (hc : c ∈ digits) :
    c.isDigit = true ∨ c = '.' := by
  cases h with
  | whole hw _ => exact Or.inl (hw c hc)
  | point hw _ hf =>
    rcases List.mem_append.mp hc with hc | hc
    · exact Or.inl (hw c hc)
    · rcases List.mem_cons.mp hc with rfl | hc
      · exact Or.inr rfl
      · exact Or.inl (hf c hc)
  | fraction hf _ =>
    rcases List.mem_cons.mp hc with rfl | hc
    · exact Or.inr rfl
    · exact Or.inl (hf c hc)

theorem DigitsSpelledBy.ne_nil (h : DigitsSpelledBy whole fraction digits) : digits ≠ [] := by
  cases h with
  | whole _ hne => exact hne
  | point _ _ _ => simp
  | fraction _ _ => simp

theorem SpelledBy.ne_nil (h : d.SpelledBy t) : t ≠ [] := by
  obtain ⟨sign, whole, fraction, digits, -, hd, -, -, rfl⟩ := h
  exact List.append_ne_nil_of_right_ne_nil sign hd.ne_nil

theorem SpelledBy.mem (h : d.SpelledBy t) {c : Char} (hc : c ∈ t) : isDecimalChar c = true := by
  obtain ⟨sign, whole, fraction, digits, hs, hd, -, -, rfl⟩ := h
  rcases List.mem_append.mp hc with hc | hc
  · exact hs.mem hc
  · rcases hd.mem hc with hc | rfl
    · exact isDecimalChar_of_isDigit hc
    · decide

def Stops (rest : Text) : Prop := ∀ c ∈ rest.head?, isDecimalChar c = false

theorem Stops.isDigit (h : Stops rest) : ∀ c ∈ rest.head?, c.isDigit = false := by
  intro c hc
  by_contra hd
  have := h c hc
  rw [isDecimalChar_of_isDigit (by simpa using hd)] at this
  cases this

theorem Stops.ne_point (h : Stops rest) (u : Text) : rest ≠ '.' :: u := by
  rintro rfl
  have := h '.' rfl
  cases this

theorem exists_sign (t : Text) : ∃ sign, SignSpelledBy (takeSign t).1 sign ∧ t = sign ++ (takeSign t).2 := by
  unfold takeSign
  split
  · exact ⟨_, .plus, rfl⟩
  · exact ⟨_, .minus, rfl⟩
  · exact ⟨_, .none, rfl⟩

theorem takeSign_append (hs : SignSpelledBy negative sign) (hd : DigitsSpelledBy whole fraction digits)
    (rest : Text) : takeSign (sign ++ (digits ++ rest)) = (negative, digits ++ rest) := by
  cases hs with
  | none =>
    obtain ⟨c, u, rfl⟩ := List.exists_cons_of_ne_nil hd.ne_nil
    have first := hd.mem (List.mem_cons_self (a := c) (l := u))
    rw [List.nil_append, List.cons_append, takeSign]
    · intro r hr
      rw [(List.cons.inj hr).1] at first
      revert first
      decide
    · intro r hr
      rw [(List.cons.inj hr).1] at first
      revert first
      decide
  | plus => rfl
  | minus => rfl

theorem pass?_append (h : d.SpelledBy t) (hr : Stops rest) : pass? (t ++ rest) = some rest := by
  obtain ⟨sign, whole, fraction, digits, hs, hd, -, -, rfl⟩ := h
  rw [List.append_assoc, pass?, takeSign_append hs hd]
  cases hd with
  | whole hw hne =>
    obtain ⟨front, back⟩ := Text.span_append hw hr.isDigit
    simp only [front, back]
    split
    · rename_i u
      exact absurd rfl (hr.ne_point u)
    · simp [hne]
  | point hw hne hf =>
    have point : ∀ c ∈ ('.' :: (fraction ++ rest)).head?, c.isDigit = false := by
      rintro c ⟨⟩
      decide
    obtain ⟨front, back⟩ := Text.span_append hw point
    simp [front, back, hne, (Text.span_append hf hr.isDigit).2]
  | fraction hf hne =>
    obtain ⟨front, back⟩ := Text.span_append hf hr.isDigit
    have point : Char.isDigit '.' = false := by decide
    simp [point, front, back, hne]

theorem exists_spelled_of_pass? (h : pass? t = some rest) : ∃ d w, SpelledBy d w ∧ t = w ++ rest := by
  obtain ⟨sign, hs, ht⟩ := exists_sign t
  have digits : ∃ whole fraction digits, DigitsSpelledBy whole fraction digits ∧
      (takeSign t).2 = digits ++ rest := by
    unfold pass? at h
    simp only at h
    generalize (takeSign t).2 = u at h ⊢
    have front : Digits (u.takeWhile Char.isDigit) := fun c hc => List.mem_takeWhile_imp hc
    have split := List.takeWhile_append_dropWhile (p := Char.isDigit) (l := u)
    split at h
    · rename_i v hv
      rw [hv] at split
      have behind : Digits (v.takeWhile Char.isDigit) := fun c hc => List.mem_takeWhile_imp hc
      have split' := List.takeWhile_append_dropWhile (p := Char.isDigit) (l := v)
      split at h
      · cases h
      · rename_i some_digits
        cases h
        -- the point may come first, but then digits have to stand behind it
        by_cases hw : u.takeWhile Char.isDigit = []
        · have hf : v.takeWhile Char.isDigit ≠ [] := by simpa [hw] using some_digits
          refine ⟨_, _, _, .fraction behind hf, ?_⟩
          rw [List.cons_append, split', ← split, hw, List.nil_append]
        · refine ⟨_, _, _, .point front hw behind, ?_⟩
          rw [List.append_assoc, List.cons_append, split', split]
    · split at h
      · cases h
      · rename_i hw
        cases h
        exact ⟨_, _, _, .whole front (by simpa using hw), split.symm⟩
  obtain ⟨whole, fraction, digits, hd, hu⟩ := digits
  exact ⟨⟨(takeSign t).1, _, _⟩, _, ⟨sign, whole, fraction, digits, hs, hd, rfl, rfl, rfl⟩, by
    rw [List.append_assoc, ← hu]; exact ht⟩

theorem ofDigits?_eq (hw : Digits whole) (hf : Digits fraction) (hne : whole ++ fraction ≠ []) :
    ofDigits? negative whole fraction =
      some ⟨negative, Nat.ofDigitChars 10 (whole ++ fraction) 0, fraction.length⟩ := by
  have all : (whole ++ fraction).all Char.isDigit = true := by
    rw [List.all_append, Bool.and_eq_true]
    exact ⟨List.all_eq_true.mpr hw, List.all_eq_true.mpr hf⟩
  have some_digits : (whole ++ fraction).isEmpty = false := by simpa using hne
  simp only [ofDigits?, all, some_digits]
  rfl

theorem point_not_mem (h : Digits t) : '.' ∉ t := fun hm => by
  have := h '.' hm
  cases this

theorem ofText?_of_spelled (h : d.SpelledBy t) : ofText? t = some d := by
  obtain ⟨negative, coefficient, places⟩ := d
  obtain ⟨sign, whole, fraction, digits, hs, hd, rfl, rfl, rfl⟩ := h
  have unsigned := takeSign_append hs hd []
  rw [List.append_nil] at unsigned
  rw [ofText?, unsigned]
  cases hd with
  | whole hw hne =>
    simp only [Text.splitOn_of_not_mem (point_not_mem hw)]
    exact ofDigits?_eq hw digits_nil (by simpa using hne)
  | point hw hne hf =>
    simp only [List.splitOn_append_cons_self_of_not_mem (point_not_mem hw),
      Text.splitOn_of_not_mem (point_not_mem hf)]
    exact ofDigits?_eq hw hf (by simp [hne])
  | fraction hf hne =>
    have split : ('.' :: fraction).splitOn '.' = [[], fraction] := by
      rw [← List.nil_append ('.' :: fraction), List.splitOn_append_cons_self_of_not_mem List.not_mem_nil,
        Text.splitOn_of_not_mem (point_not_mem hf)]
    simp only [split]
    exact ofDigits?_eq digits_nil hf (by simpa using hne)

end Decimal

/-! ## Literals -/

namespace Bracketed

def PartSpelledBy (d : Decimal) (t : Text) : Prop :=
  ∃ before w after, Text.isBlank before = true ∧ d.SpelledBy w ∧ Text.isBlank after = true ∧
    t = before ++ (w ++ after)

inductive PartsSpelledBy : List Decimal → Text → Prop
  | last {d : Decimal} {t : Text} : PartSpelledBy d t → PartsSpelledBy [d] t
  | cons {d : Decimal} {ds : List Decimal} {t u : Text} : PartSpelledBy d t → PartsSpelledBy ds u →
    PartsSpelledBy (d :: ds) (t ++ ',' :: u)

def SpelledBy (literal : Bracketed) (ds : List Decimal) (raw : Text) : Prop :=
  ds.length = literal.size ∧ ∃ before t after, Text.isBlank before = true ∧ PartsSpelledBy ds t ∧
    Text.isBlank after = true ∧ raw = before ++ '<' :: (t ++ '>' :: after)

variable {literal : Bracketed} {d : Decimal} {ds : List Decimal} {t u rest raw : Text} {c : Char}

def isPartChar (c : Char) : Bool := isBlankChar c || Decimal.isDecimalChar c

theorem PartSpelledBy.mem (h : PartSpelledBy d t) (hc : c ∈ t) : isPartChar c = true := by
  obtain ⟨before, w, after, hb, hd, ha, rfl⟩ := h
  rw [isPartChar, Bool.or_eq_true]
  rcases List.mem_append.mp hc with hc | hc
  · exact Or.inl (List.all_eq_true.mp hb c hc)
  · rcases List.mem_append.mp hc with hc | hc
    · exact Or.inr (hd.mem hc)
    · exact Or.inl (List.all_eq_true.mp ha c hc)

theorem PartSpelledBy.not_mem (h : PartSpelledBy d t) (hc : isPartChar c = false) : c ∉ t := fun hm => by
  rw [h.mem hm] at hc
  cases hc

theorem PartsSpelledBy.not_mem (h : PartsSpelledBy ds t) (hc : isPartChar c = false) (hne : c ≠ ',') : c ∉ t := by
  induction h with
  | last hd => exact hd.not_mem hc
  | cons hd _ ih =>
    rw [List.mem_append, List.mem_cons, not_or, not_or]
    exact ⟨hd.not_mem hc, hne, ih⟩

/-! ## The two stages -/

theorem isDecimalChar_of_isBlankChar (h : isBlankChar c = true) : Decimal.isDecimalChar c = false := by
  by_contra hd
  rw [Decimal.isBlankChar_of_isDecimalChar (by simpa using hd)] at h
  cases h

theorem stops_blank_append {after : Text} (ha : Text.isBlank after = true) (hc : isPartChar c = false) :
    Decimal.Stops (after ++ c :: rest) := by
  cases after with
  | nil =>
    rintro _ ⟨⟩
    simp only [isPartChar, Bool.or_eq_false_iff] at hc
    exact hc.2
  | cons b after =>
    rintro _ ⟨⟩
    simp only [Text.isBlank_cons, Bool.and_eq_true] at ha
    exact isDecimalChar_of_isBlankChar ha.1

theorem passPart?_eq_some_iff (hc : isPartChar c = false) :
    passPart? c t = some rest ↔ ∃ d part, PartSpelledBy d part ∧ t = part ++ c :: rest := by
  unfold passPart?
  constructor
  · intro h
    split at h
    · cases h
    · rename_i behind hb
      obtain ⟨d, w, hd, hw⟩ := Decimal.exists_spelled_of_pass? hb
      split at h
      · rename_i x rest' hx
        split at h
        · rename_i hxc
          cases h
          obtain ⟨before, hbefore, ht⟩ := Text.exists_append_trimStart t
          obtain ⟨after, hafter, hr⟩ := Text.exists_append_trimStart behind
          refine ⟨d, _, ⟨before, w, after, hbefore, hd, hafter, rfl⟩, ?_⟩
          rw [ht, hw, hr, hx, hxc]
          simp
        · cases h
      · cases h
  · rintro ⟨d, part, ⟨before, w, after, hb, hd, ha, rfl⟩, rfl⟩
    have first : ∀ b ∈ (w ++ (after ++ c :: rest)).head?, isBlankChar b = false := by
      obtain ⟨b, w, rfl⟩ := List.exists_cons_of_ne_nil hd.ne_nil
      rintro _ ⟨⟩
      exact Decimal.isBlankChar_of_isDecimalChar (hd.mem (List.mem_cons_self ..))
    have closing : ∀ b ∈ (c :: rest).head?, isBlankChar b = false := by
      rintro _ ⟨⟩
      simp only [isPartChar, Bool.or_eq_false_iff] at hc
      exact hc.1
    rw [List.append_assoc, List.append_assoc, Text.trimStart_append hb first,
      Decimal.pass?_append hd (stops_blank_append ha hc)]
    simp [Text.trimStart_append ha closing]

theorem closesAfter_iff : ∀ {n : Nat} {t : Text}, closesAfter n t = true ↔
    ∃ ds u after, ds.length = n + 1 ∧ PartsSpelledBy ds u ∧ Text.isBlank after = true ∧ t = u ++ '>' :: after
  | 0, t => by
    unfold closesAfter
    constructor
    · intro h
      split at h
      · rename_i rest hr
        obtain ⟨d, part, hd, rfl⟩ := (passPart?_eq_some_iff (by decide)).mp hr
        exact ⟨[d], part, rest, rfl, .last hd, h, rfl⟩
      · cases h
    · rintro ⟨ds, u, after, hn, hds, ha, rfl⟩
      cases hds with
      | last hd => rw [(passPart?_eq_some_iff (by decide)).mpr ⟨_, _, hd, rfl⟩]; exact ha
      | cons _ hds => cases hds <;> cases hn
  -- as many parts as commas are left to pass, and the last one closes the bracket
  | n + 1, t => by
    unfold closesAfter
    constructor
    · intro h
      split at h
      · rename_i rest hr
        obtain ⟨d, part, hd, rfl⟩ := (passPart?_eq_some_iff (by decide)).mp hr
        obtain ⟨ds, u, after, hn, hds, ha, rfl⟩ := closesAfter_iff.mp h
        exact ⟨d :: ds, _, after, by simp [hn], .cons hd hds, ha, by simp⟩
      · cases h
    · rintro ⟨ds, u, after, hn, hds, ha, rfl⟩
      cases hds with
      | last hd => cases hn
      | @cons d ds part u hd hds =>
        have passed : passPart? ',' (part ++ ',' :: u ++ '>' :: after) = some (u ++ '>' :: after) :=
          (passPart?_eq_some_iff (by decide)).mpr ⟨d, part, hd, by simp⟩
        rw [passed]
        exact closesAfter_iff.mpr ⟨ds, u, after, by simpa using hn, hds, ha, rfl⟩

theorem fits_iff : literal.fits raw = true ↔ ∃ ds, literal.SpelledBy ds raw := by
  have size : literal.size - 1 + 1 = literal.size := by cases literal <;> rfl
  unfold fits
  constructor
  · intro h
    split at h
    · rename_i rest hr
      obtain ⟨ds, t, after, hn, hds, ha, rfl⟩ := closesAfter_iff.mp h
      obtain ⟨before, hb, ht⟩ := Text.exists_append_trimStart raw
      exact ⟨ds, hn.trans size, before, t, after, hb, hds, ha, by rw [← hr]; exact ht⟩
    · cases h
  · rintro ⟨ds, hn, before, t, after, hb, hds, ha, rfl⟩
    have bracket : ∀ c ∈ ('<' :: (t ++ '>' :: after)).head?, isBlankChar c = false := by
      rintro _ ⟨⟩
      decide
    rw [Text.trimStart_append hb bracket]
    exact closesAfter_iff.mpr ⟨ds, t, after, hn.trans size.symm, hds, ha, rfl⟩

theorem PartSpelledBy.trim (h : PartSpelledBy d t) : d.SpelledBy (Text.trim t) := by
  obtain ⟨before, w, after, hb, hd, ha, rfl⟩ := h
  have solid : ∀ c ∈ w, isBlankChar c = false := fun c hc => Decimal.isBlankChar_of_isDecimalChar (hd.mem hc)
  rwa [Text.trim_append hb ha hd.ne_nil (fun c hc => solid c (List.mem_of_mem_head? hc))
    fun c hc => solid c (List.mem_of_mem_getLast? hc)]

theorem PartsSpelledBy.splitOn (h : PartsSpelledBy ds t) :
    List.Forall₂ (fun part d => Decimal.SpelledBy d part) ((t.splitOn ',').map Text.trim) ds := by
  have comma : isPartChar ',' = false := by decide
  induction h with
  | last hd =>
    rw [Text.splitOn_of_not_mem (hd.not_mem comma)]
    exact .cons hd.trim .nil
  | cons hd _ ih =>
    rw [List.splitOn_append_cons_self_of_not_mem (hd.not_mem comma)]
    exact .cons hd.trim ih

theorem drop_bracket (h : c ∉ u) : (c :: u).dropWhile (· == c) = u := by
  have other : ∀ b ∈ u.head?, (b == c) = false := fun b hb =>
    beq_eq_false_iff_ne.mpr (ne_of_mem_of_not_mem (List.mem_of_mem_head? hb) h)
  have bracket : ∀ b ∈ [c], (b == c) = true := by simp
  exact (Text.span_append bracket other).2

/-- The parts of a literal are its decimals: it has no brackets but those around them. -/
theorem SpelledBy.parts (h : literal.SpelledBy ds raw) :
    List.Forall₂ (fun part d => Decimal.SpelledBy d part) (parts raw) ds := by
  obtain ⟨-, before, t, after, hb, hds, ha, rfl⟩ := h
  have trimmed : Text.trim (before ++ '<' :: (t ++ '>' :: after)) = '<' :: (t ++ ['>']) := by
    have first : ∀ c ∈ ('<' :: (t ++ ['>'])).head?, isBlankChar c = false := by
      rintro _ ⟨⟩
      decide
    have last : ∀ c ∈ ('<' :: (t ++ ['>'])).getLast?, isBlankChar c = false := by
      rw [← List.cons_append, List.getLast?_concat]
      rintro _ ⟨⟩
      decide
    rw [← Text.trim_append hb ha (List.cons_ne_nil _ _) first last]
    simp
  have opened : ('<' :: (t ++ ['>'])).dropWhile (· == '<') = t ++ ['>'] := by
    have := hds.not_mem (c := '<') (by decide) (by decide)
    exact drop_bracket (by simp [this])
  have closed : (t ++ ['>']).reverse.dropWhile (· == '>') = t.reverse := by
    have := hds.not_mem (c := '>') (by decide) (by decide)
    rw [List.reverse_append]
    exact drop_bracket (by simpa using this)
  unfold Bracketed.parts
  simp only [trimmed, opened, closed, List.reverse_reverse]
  exact hds.splitOn

theorem components_of_spelled (h : literal.SpelledBy ds raw) :
    literal.components raw = .ok (ds.map Decimal.toBinary64) := by
  rw [components, if_pos (fits_iff.mpr ⟨ds, h⟩), mapM_eq_ok_iff, List.forall₂_map_right_iff]
  exact h.parts.imp fun part d hd => by rw [Decimal.ofText?_of_spelled hd]

theorem components_of_not_spelled (h : ¬ ∃ ds, literal.SpelledBy ds raw) :
    literal.components raw = .error (.notBracketed literal raw) := by
  rw [components, if_neg fun hf => h (fits_iff.mp hf)]

/-- A way of reading texts that takes those which spell a literal, for the numbers nearest to its decimals in
their order, and refuses all others in one way. -/
structure ReadBy (literal : Bracketed) (read : Text → Except Fault (List Binary64)) : Prop where
  succeeds : ∀ raw, (∃ xs, read raw = .ok xs) ↔ ∃ ds, literal.SpelledBy ds raw
  values : ∀ raw ds xs, literal.SpelledBy ds raw → read raw = .ok xs → List.Forall₂ Decimal.RoundsTo ds xs
  refuses : ∀ raw fault, read raw = .error fault → fault = .notBracketed literal raw

theorem readBy_components (literal : Bracketed) : literal.ReadBy literal.components := by
  refine ⟨fun raw => ⟨fun ⟨xs, h⟩ => ?_, fun ⟨ds, hds⟩ => ⟨_, components_of_spelled hds⟩⟩, ?_, ?_⟩
  · by_contra none
    rw [components_of_not_spelled none] at h
    cases h
  · intro raw ds xs hds h
    rw [components_of_spelled hds] at h
    cases h
    exact List.forall₂_map_right_iff.mpr (List.forall₂_same.mpr fun d _ => Decimal.roundsTo_toBinary64 d)
  · intro raw fault h
    by_cases hs : ∃ ds, literal.SpelledBy ds raw
    · obtain ⟨ds, hds⟩ := hs
      rw [components_of_spelled hds] at h
      cases h
    · rw [components_of_not_spelled hs] at h
      cases h
      rfl

theorem length_components {xs : List Binary64} (h : literal.components raw = .ok xs) :
    xs.length = literal.size := by
  obtain ⟨ds, hds⟩ := (readBy_components literal).succeeds raw |>.mp ⟨xs, h⟩
  rw [← ((readBy_components literal).values raw ds xs hds h).length_eq, hds.1]

end Bracketed

theorem Vector.components_ofText (raw : Text) :
    (ofText raw).map components = Bracketed.vector.components raw := by
  unfold ofText
  cases h : Bracketed.vector.components raw with
  | error fault => rfl
  | ok xs =>
    obtain ⟨x, y, z, rfl⟩ := List.length_eq_three.mp (Bracketed.length_components h)
    rfl

theorem Rotation.components_ofText (raw : Text) :
    (ofText raw).map components = Bracketed.rotation.components raw := by
  unfold ofText
  cases h : Bracketed.rotation.components raw with
  | error fault => rfl
  | ok xs =>
    have length : xs.length = 4 := Bracketed.length_components h
    match xs, length with
    | [x, y, z, s], _ => rfl

/-- Vectors and rotations are read from exactly the texts that spell them. What passes the first stage passes
the second, with as many numbers as there have to be. -/
theorem Bracketed.ofText_readBy :
    vector.ReadBy (fun raw => (Vector.ofText raw).map Vector.components) ∧
      rotation.ReadBy (fun raw => (Rotation.ofText raw).map Rotation.components) ∧
      ∀ (literal : Bracketed) (raw : Text), literal.fits raw = true →
        ∃ xs, literal.components raw = .ok xs ∧ xs.length = literal.size := by
  have vectors : (fun raw => (Vector.ofText raw).map Vector.components) = vector.components :=
    funext Vector.components_ofText
  have rotations : (fun raw => (Rotation.ofText raw).map Rotation.components) = rotation.components :=
    funext Rotation.components_ofText
  rw [vectors, rotations]
  refine ⟨readBy_components vector, readBy_components rotation, fun literal raw hf => ?_⟩
  obtain ⟨ds, hds⟩ := fits_iff.mp hf
  have read := components_of_spelled hds
  exact ⟨_, read, length_components read⟩

end LslScript
