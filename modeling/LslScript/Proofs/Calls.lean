import LslScript.Call
import LslScript.Proofs.Braces
import LslScript.Proofs.Expanding

/-!
# Statements of calls

Text is inline if it has neither a newline nor a delimiter. Numbers, vectors and literals are inline, so a
call with typed arguments is one inline statement, whatever its arguments are (`Call.exists_statement`).
-/

namespace LslScript

/-! ## Inline text -/

namespace Text
variable {t u : Text} {c : Char}

instance (t : Text) : Decidable (Plain t) :=
  decidable_of_iff (∀ d ∈ Delimiter.all, d.char ∉ t) ⟨fun h d => h d d.mem_all, fun h d _ => h d⟩

theorem Plain.firstDelimiter?_eq_none (h : Plain t) : Placeholder.firstDelimiter? t = none := by
  rw [Placeholder.firstDelimiter?, List.findSome?_eq_none_iff]
  intro c hc
  rw [Delimiter.ofChar?, List.find?_eq_none]
  intro d _ hd
  rw [beq_iff_eq] at hd
  exact h d (hd ▸ hc)

def isInlineChar (c : Char) : Bool := c != '\n' && Delimiter.all.all (·.char != c)

def Inline (t : Text) : Prop := ∀ c ∈ t, isInlineChar c = true

instance (t : Text) : Decidable (Inline t) := List.decidableBAll (isInlineChar · = true) t

theorem isInlineChar_iff : isInlineChar c = true ↔ c ≠ '\n' ∧ ∀ d : Delimiter, d.char ≠ c := by
  simp [isInlineChar, Delimiter.mem_all]

theorem inline_iff : Inline t ↔ '\n' ∉ t ∧ Plain t := by
  constructor
  · intro h
    have inline := fun c hc => isInlineChar_iff.mp (h c hc)
    exact ⟨fun hn => (inline _ hn).1 rfl, fun d hd => (inline _ hd).2 d rfl⟩
  · intro ⟨newline, plain⟩ c hc
    exact isInlineChar_iff.mpr ⟨ne_of_mem_of_not_mem hc newline, fun d hd => plain d (hd ▸ hc)⟩

theorem Inline.newline_not_mem (h : Inline t) : '\n' ∉ t := (inline_iff.mp h).1

theorem Inline.plain (h : Inline t) : Plain t := (inline_iff.mp h).2

theorem Inline.subset (h : Inline u) (hs : t ⊆ u) : Inline t := fun c hc => h c (hs hc)

theorem inline_append : Inline (t ++ u) ↔ Inline t ∧ Inline u := List.forall_mem_append

theorem inline_cons : Inline (c :: t) ↔ isInlineChar c = true ∧ Inline t := List.forall_mem_cons

theorem Inline.intercalate {sep : Text} (hs : Inline sep) : ∀ {ts : List Text}, (∀ t ∈ ts, Inline t) →
    Inline (sep.intercalate ts)
  | [], _ => List.forall_mem_nil _
  | [t], h => by
    rw [List.intercalate_singleton]
    exact h t (List.mem_singleton_self t)
  | t :: u :: ts, h => by
    obtain ⟨ht, hts⟩ := List.forall_mem_cons.mp h
    rw [List.intercalate_cons_cons, inline_append, inline_append]
    exact ⟨⟨ht, hs⟩, hs.intercalate hts⟩

theorem isInlineChar_of_isDigit (h : c.isDigit = true) : isInlineChar c = true := by
  rw [isInlineChar_iff]
  constructor
  · rintro rfl
    cases h
  · rintro d rfl
    cases d <;> cases h

theorem inline_toDigits (n : Nat) : Inline (Nat.toDigits 10 n) := fun _ hc =>
  isInlineChar_of_isDigit (Nat.isDigit_of_mem_toDigits (by decide) (by decide) hc)

theorem inline_ofInt (n : Int) : Inline (ofInt n) := by
  unfold ofInt
  split
  · exact inline_cons.mpr ⟨by decide, inline_toDigits _⟩
  · exact inline_toDigits _

end Text

namespace Binary64

theorem inline_significant {digits : Text} (h : digits.Inline) : (significant digits).Inline := by
  refine h.subset fun c hc => ?_
  rw [significant, List.mem_reverse] at hc
  exact List.mem_reverse.mp (List.dropWhile_subset _ hc)

theorem inline_positional (decimal : Nat) : (positional decimal).Inline := by
  have fraction := Text.inline_toDigits (decimalUnit + decimal % decimalUnit)
  have digits := inline_significant (fraction.subset (List.tail_sublist _).subset)
  unfold positional
  simp only [Text.inline_append]
  refine ⟨⟨Text.inline_toDigits _, by decide⟩, ?_⟩
  split
  · decide
  · exact digits

theorem inline_scientific (decimal : Nat) : (scientific decimal).Inline := by
  have digits := inline_significant (Text.inline_toDigits decimal)
  unfold scientific
  simp only
  split
  · decide
  · rename_i d hd
    rw [hd, Text.inline_cons] at digits
    rw [Text.inline_cons, Text.inline_cons]
    exact ⟨digits.1, by decide, Text.inline_ofInt _⟩
  · rename_i d others _ hd
    rw [hd, Text.inline_cons] at digits
    rw [List.cons_append, List.cons_append, List.cons_append, List.cons_append, Text.inline_cons, Text.inline_cons,
      Text.inline_append, Text.inline_append]
    exact ⟨digits.1, by decide, ⟨digits.2, by decide⟩, Text.inline_ofInt _⟩

theorem inline_magnitudeText (magnitude : Nat) : (magnitudeText magnitude).Inline := by
  unfold magnitudeText
  split
  · decide
  · split
    · exact inline_positional _
    · exact inline_scientific _

theorem inline_text (x : Binary64) : x.text.Inline := by
  unfold text
  split
  · decide
  · split
    · exact Text.inline_cons.mpr ⟨by decide, inline_magnitudeText _⟩
    · exact inline_magnitudeText _

end Binary64

theorem Vector.inline_text (v : Vector) : v.text.Inline := by
  have components : ∀ t ∈ v.components.map Binary64.text, t.Inline := by
    intro t ht
    obtain ⟨x, -, rfl⟩ := List.mem_map.mp ht
    exact x.inline_text
  have separator : Text.Inline ",".toList := by decide
  unfold text Bracketed.text
  simp only [Text.inline_append]
  exact ⟨⟨by decide, separator.intercalate components⟩, by decide⟩

theorem Placeholder.plain_encode (t : Text) : (encode t).Plain := fun d => char_not_mem_encodeBy d.mem_all t

theorem Placeholder.newline_not_mem_encode {t : Text} (h : '\n' ∉ t) : '\n' ∉ encode t := by
  intro hn
  obtain ⟨c, hc, hn⟩ := List.mem_flatMap.mp hn
  split at hn
  · rename_i d _
    exact d.not_mem_token (by decide) hn
  · rw [List.mem_singleton] at hn
    exact h (hn ▸ hc)

namespace Call

theorem newline_not_mem_escape (t : Text) : '\n' ∉ escape t := by
  intro hn
  obtain ⟨c, -, hn⟩ := List.mem_flatMap.mp hn
  split at hn
  · revert hn; decide
  · revert hn; decide
  · revert hn; decide
  · rename_i newline _
    exact newline (List.mem_singleton.mp hn).symm

theorem inline_quoted (t : Text) : (quoted t).Inline := by
  have quote : Text.Inline Delimiter.doubleQuote.token := by decide
  have literal := Text.inline_iff.mpr
    ⟨Placeholder.newline_not_mem_encode (newline_not_mem_escape t), Placeholder.plain_encode (escape t)⟩
  exact Text.inline_append.mpr ⟨Text.inline_append.mpr ⟨quote, literal⟩, quote⟩

/-! ## Statements -/

/-- Whether the arguments of a call are values; the others are given as text. -/
def isTyped : Call → Bool
  | raw _ => false
  | _ => true

theorem append_listing_pair (front first second : Text) :
    front ++ Text.listing [first, second] = front ++ first ++ ", ".toList ++ second := by
  rw [Text.listing, List.intercalate_cons_cons, List.intercalate_singleton, List.append_assoc, List.append_assoc,
    List.append_assoc]

/-- What is rendered from inline arguments is one statement, with or without the newline behind it. -/
theorem exists_statement_of_listing {name ending : Text} {arguments : List Text} (hn : name.Inline)
    (hb : name.isBlank = false) (ha : ∀ t ∈ arguments, t.Inline)
    (he : ending = ")".toList ∨ ending = ");\n".toList) :
    ∃ statement : Text, statement.Inline ∧ statement.isBlank = false ∧
      (name ++ Text.listing arguments ++ ending = statement ∨
        name ++ Text.listing arguments ++ ending = statement ++ ['\n']) := by
  have separator : Text.Inline ", ".toList := by decide
  have front : (name ++ Text.listing arguments).Inline :=
    Text.inline_append.mpr ⟨hn, separator.intercalate ha⟩
  have blank : ∀ t : Text, (name ++ Text.listing arguments ++ t).isBlank = false := by simp [hb]
  rcases he with rfl | rfl
  · exact ⟨_, Text.inline_append.mpr ⟨front, by decide⟩, blank _, Or.inl rfl⟩
  · refine ⟨name ++ Text.listing arguments ++ ");".toList, ?_, blank _, Or.inr (by simp)⟩
    exact Text.inline_append.mpr ⟨front, by decide⟩

/-- The statement of a typed call is inline and not blank, and only a newline may stand behind it. -/
theorem exists_statement {call : Call} (h : call.isTyped = true) :
    ∃ statement : Text, statement.Inline ∧ statement.isBlank = false ∧
      (call.render = statement ∨ call.render = statement ++ ['\n']) := by
  cases call with
  | say channel message =>
    have arguments : ∀ t ∈ [Text.ofInt channel.toInt, quoted message], t.Inline := by
      simp [Text.inline_ofInt, inline_quoted]
    have rendered : (say channel message).render =
        "llSay(".toList ++ Text.listing [Text.ofInt channel.toInt, quoted message] ++ ");\n".toList :=
      congrArg (· ++ ");\n".toList) (append_listing_pair _ _ _).symm
    rw [rendered]
    exact exists_statement_of_listing (by decide) (by decide) arguments (Or.inr rfl)
  | listen channel name id message embed =>
    have arguments : ∀ t ∈ [Text.ofInt channel.toInt, quoted name, quoted id.text, quoted message], t.Inline := by
      simp [Text.inline_ofInt, inline_quoted]
    refine exists_statement_of_listing (by decide) (by decide) arguments ?_
    cases embed with
    | true => exact Or.inl rfl
    | false => exact Or.inr rfl
  | setColor color face =>
    have arguments : ∀ t ∈ [color.text, Text.ofInt face.toInt], t.Inline := by
      simp [Text.inline_ofInt, color.inline_text]
    have rendered : (setColor color face).render =
        "llSetColor(".toList ++ Text.listing [color.text, Text.ofInt face.toInt] ++ ");\n".toList :=
      congrArg (· ++ ");\n".toList) (append_listing_pair _ _ _).symm
    rw [rendered]
    exact exists_statement_of_listing (by decide) (by decide) arguments (Or.inr rfl)
  | raw text => cases h

theorem plain_render {call : Call} (h : call.isTyped = true) : call.render.Plain := by
  obtain ⟨statement, inline, -, hr | hr⟩ := exists_statement h
  · rw [hr]
    exact inline.plain
  · rw [hr, Text.plain_append]
    exact ⟨inline.plain, Text.plain_newline⟩

end Call

end LslScript
