import LslScript.Placeholder
import LslScript.Proofs.Headers

/-!
# Replacing, encoding and expanding

Expanding replaces the tokens of one kind of delimiter after those of the other. It acts apart on the parts
of a text between characters that no token has, and leaves no token (`Placeholder.expand_complete`). Encoding
is defined here for some of the delimiters too (`Placeholder.encodeBy`), because that is what a text that is
expanded in part looks like.
-/

namespace LslScript

/-! ## Replacement -/

namespace Text
variable {word new : Text}

theorem replaceFrom_eq_drop : ∀ (skip : Nat) (t : Text),
    replaceFrom word new skip t = replace word new (t.drop skip)
  | 0, _ => rfl
  | _ + 1, [] => rfl
  | skip + 1, _ :: t => by
    rw [replaceFrom, replaceFrom_eq_drop skip t, List.drop_succ_cons]

@[simp] theorem replace_nil : replace word new [] = [] := rfl

theorem replace_append_self (hw : word ≠ []) (t : Text) :
    replace word new (word ++ t) = new ++ replace word new t := by
  obtain ⟨c, w, rfl⟩ := List.exists_cons_of_ne_nil hw
  have found : (c :: w).isPrefixOf (c :: (w ++ t)) = true :=
    List.isPrefixOf_iff_prefix.mpr (List.prefix_append (c :: w) t)
  rw [replace, List.cons_append, replaceFrom, if_pos found, replaceFrom_eq_drop]
  simp

theorem replace_cons {c : Char} {t : Text} (h : ¬ word <+: c :: t) :
    replace word new (c :: t) = c :: replace word new t := by
  have other : ¬ word.isPrefixOf (c :: t) = true := fun hp => h (List.isPrefixOf_iff_prefix.mp hp)
  rw [replace, replaceFrom, if_neg other, replace]

/-- Replacing goes through a text by occurrences of the word and characters at which none starts. -/
theorem replace_induction {P : Text → Prop} (hw : word ≠ []) (nil : P [])
    (found : ∀ rest, P rest → P (word ++ rest)) (other : ∀ c t, ¬ word <+: c :: t → P t → P (c :: t)) :
    ∀ t, P t
  | [] => nil
  | c :: t => by
    by_cases hp : word <+: c :: t
    · obtain ⟨rest, hrest⟩ := hp
      have shorter : rest.length < t.length + 1 := by
        have positive := List.length_pos_of_ne_nil hw
        rw [← List.length_cons, ← hrest, List.length_append]
        omega
      rw [← hrest]
      exact found rest (replace_induction hw nil found other rest)
    · exact other c t hp (replace_induction hw nil found other t)
termination_by t => t.length

theorem eq_nil_of_prefix_cons {c : Char} {u t : Text} (hc : c ∉ u) (h : u <+: c :: t) : u = [] := by
  rcases List.prefix_cons_iff.mp h with rfl | ⟨v, rfl, -⟩
  · rfl
  · exact absurd (List.mem_cons_self ..) hc

theorem prefix_of_prefix_append_cons {c : Char} (hc : c ∉ word) {a b : Text} (h : word <+: a ++ c :: b) :
    word <+: a := by
  rcases prefix_append_cases h with hp | ⟨rest, rfl, hr⟩
  · exact hp
  · have : rest = [] := eq_nil_of_prefix_cons (fun hm => hc (List.mem_append_right a hm)) hr
    simp [this]

/-- Replacing goes on afresh at a character that is not in the word. -/
theorem replace_append_cons {c : Char} (hw : word ≠ []) (hc : c ∉ word) (a b : Text) :
    replace word new (a ++ c :: b) = replace word new a ++ c :: replace word new b := by
  induction a using replace_induction hw with
  | nil =>
    rw [List.nil_append, replace_cons fun h => hw (eq_nil_of_prefix_cons hc h)]
    rfl
  | found rest ih =>
    rw [List.append_assoc, replace_append_self hw, replace_append_self hw, ih, List.append_assoc]
  | other x a hx ih =>
    have none : ¬ word <+: x :: (a ++ c :: b) := fun h => hx (prefix_of_prefix_append_cons (a := x :: a) hc h)
    rw [List.cons_append, replace_cons none, replace_cons hx, ih, List.cons_append]

theorem replace_of_not_infix : ∀ {t : Text}, ¬ word <:+: t → replace word new t = t
  | [], _ => rfl
  | c :: t, h => by
    rw [List.infix_cons_iff, not_or] at h
    rw [replace_cons h.1, replace_of_not_infix h.2]

theorem replace_ne_nil (hn : new ≠ []) : ∀ {t : Text}, t ≠ [] → replace word new t ≠ []
  | [], h => absurd rfl h
  | c :: t, _ => by
    unfold replace replaceFrom
    split
    · exact List.append_ne_nil_of_left_ne_nil hn _
    · exact List.cons_ne_nil _ _

theorem mem_of_mem_replace {c : Char} (hw : word ≠ []) (hc : c ∉ new) {t : Text} :
    c ∈ replace word new t → c ∈ t := by
  induction t using replace_induction hw with
  | nil => exact fun h => h
  | found rest ih =>
    rw [replace_append_self hw, List.mem_append, List.mem_append]
    rintro (h | h)
    · exact absurd h hc
    · exact Or.inr (ih h)
  | other x t hx ih =>
    rw [replace_cons hx, List.mem_cons, List.mem_cons]
    exact Or.imp_right ih

section
variable {c : Char} {u : Text}

/-- A start of the result without the character that was put in was there before. -/
theorem prefix_of_prefix_replace (hw : word ≠ []) (t : Text) : ∀ {u : Text}, c ∉ u →
    u <+: replace word [c] t → u <+: t := by
  induction t using replace_induction hw with
  | nil => exact fun _ h => h
  | found rest _ =>
    intro u hc h
    rw [replace_append_self hw] at h
    rw [eq_nil_of_prefix_cons hc h]
    exact List.nil_prefix
  | other x t hx ih =>
    intro u hc h
    rw [replace_cons hx] at h
    cases u with
    | nil => exact List.nil_prefix
    | cons a u =>
      obtain ⟨rfl, tail⟩ := List.cons_prefix_cons.mp h
      exact List.cons_prefix_cons.mpr ⟨rfl, ih (fun hm => hc (List.mem_cons_of_mem _ hm)) tail⟩

theorem infix_of_infix_replace (hw : word ≠ []) (hu : u ≠ []) (hc : c ∉ u) (t : Text) :
    u <:+: replace word [c] t → u <:+: t := by
  induction t using replace_induction hw with
  | nil => exact fun h => h
  | found rest ih =>
    rw [replace_append_self hw, List.singleton_append, List.infix_cons_iff]
    rintro (hp | hi)
    · exact absurd (eq_nil_of_prefix_cons hc hp) hu
    · exact (ih hi).trans (List.suffix_append word rest).isInfix
  | other x t hx ih =>
    have here := prefix_of_prefix_replace (u := u) hw (x :: t) hc
    rw [replace_cons hx] at here ⊢
    rw [List.infix_cons_iff]
    rintro (hp | hi)
    · exact (here hp).isInfix
    · exact List.infix_cons (ih hi)

theorem not_infix_replace (hw : word ≠ []) (hc : c ∉ word) (t : Text) : ¬ word <:+: replace word [c] t := by
  induction t using replace_induction hw with
  | nil => exact fun h => hw (List.infix_nil.mp h)
  | found rest ih =>
    rw [replace_append_self hw, List.singleton_append, List.infix_cons_iff]
    rintro (hp | hi)
    · exact hw (eq_nil_of_prefix_cons hc hp)
    · exact ih hi
  | other x t hx ih =>
    have here := prefix_of_prefix_replace hw (x :: t) hc
    rw [replace_cons hx] at here ⊢
    rw [List.infix_cons_iff]
    rintro (hp | hi)
    · exact hx (here hp)
    · exact ih hi

end

end Text

/-! ## Delimiters -/

namespace Delimiter

def word : Delimiter → Text
  | openBrace => "obrace"
  | closeBrace => "cbrace"
  | doubleQuote => "dquote"

theorem token_eq (d : Delimiter) : d.token = '_' :: '_' :: (d.word ++ ['_', '_']) := by
  cases d <;> decide +kernel

theorem token_ne_nil (d : Delimiter) : d.token ≠ [] := by
  rw [token_eq]
  simp

theorem isIdentifier_token (d : Delimiter) : isIdentifier d.token = true := by cases d <;> decide

theorem not_mem_token (d : Delimiter) {c : Char} (h : isIdentifierChar c = false) : c ∉ d.token :=
  not_mem_of_isIdentifier d.isIdentifier_token h

theorem isIdentifierChar_char (d : Delimiter) : isIdentifierChar d.char = false := by cases d <;> decide

theorem char_not_mem_token (e d : Delimiter) : e.char ∉ d.token := d.not_mem_token e.isIdentifierChar_char

theorem word_ne_nil (d : Delimiter) : d.word ≠ [] := by cases d <;> decide

theorem char_not_mem_word (e d : Delimiter) : e.char ∉ d.word := by cases d <;> cases e <;> decide

theorem underscore_not_mem_word (d : Delimiter) : '_' ∉ d.word := by cases d <;> decide

theorem char_ne_underscore (d : Delimiter) : d.char ≠ '_' := by cases d <;> decide

theorem char_inj {d e : Delimiter} (h : d.char = e.char) : d = e := by
  revert h
  cases d <;> cases e <;> decide

theorem word_length_eq (d e : Delimiter) : d.word.length = e.word.length := by
  cases d <;> cases e <;> decide +kernel

theorem word_inj {d e : Delimiter} (h : d.word = e.word) : d = e := by
  revert h
  cases d <;> cases e <;> decide

theorem mem_all (d : Delimiter) : d ∈ all := by cases d <;> decide

end Delimiter

namespace Placeholder

/-- Puts tokens for the given delimiters only. -/
def encodeBy (ds : List Delimiter) (t : Text) : Text :=
  t.flatMap fun c =>
    match ds.find? (·.char == c) with
    | some d => d.token
    | none => [c]

def expandBy (ds : List Delimiter) (t : Text) : Text :=
  ds.foldl (fun t d => Text.replace d.token [d.char] t) t

theorem expandBy_cons (d : Delimiter) (ds : List Delimiter) (t : Text) :
    expandBy (d :: ds) t = expandBy ds (Text.replace d.token [d.char] t) := rfl

theorem encodeBy_all (t : Text) : encodeBy Delimiter.all t = encode t := rfl

theorem expandBy_all (t : Text) : expandBy Delimiter.all t = expand t := rfl

variable {d : Delimiter} {ds : List Delimiter} {c : Char}

@[simp] theorem encodeBy_nil (ds : List Delimiter) : encodeBy ds [] = [] := rfl

theorem encodeBy_append (t u : Text) : encodeBy ds (t ++ u) = encodeBy ds t ++ encodeBy ds u :=
  List.flatMap_append

theorem encodeBy_char (hd : d ∈ ds) (t : Text) : encodeBy ds (d.char :: t) = d.token ++ encodeBy ds t := by
  have found : ds.find? (·.char == d.char) = some d := by
    cases h : ds.find? (·.char == d.char) with
    | none => exact absurd (beq_self_eq_true d.char) (List.find?_eq_none.mp h d hd)
    | some e =>
      have he : e.char = d.char := by simpa using List.find?_some h
      rw [Delimiter.char_inj he]
  simp only [encodeBy, List.flatMap_cons, found]

theorem encodeBy_cons (hc : ∀ d ∈ ds, c ≠ d.char) (t : Text) :
    encodeBy ds (c :: t) = c :: encodeBy ds t := by
  have none : ds.find? (·.char == c) = none := by
    rw [List.find?_eq_none]
    intro d hd he
    exact hc d hd (eq_of_beq he).symm
  simp only [encodeBy, List.flatMap_cons, none]
  rfl

theorem encodeBy_of_not_mem : ∀ {t : Text}, (∀ d ∈ ds, d.char ∉ t) → encodeBy ds t = t
  | [], _ => rfl
  | c :: t, h => by
    have head : ∀ d ∈ ds, c ≠ d.char := fun d hd he => h d hd (he ▸ List.mem_cons_self ..)
    rw [encodeBy_cons head, encodeBy_of_not_mem fun d hd hm => h d hd (List.mem_cons_of_mem _ hm)]

theorem char_or_not (ds : List Delimiter) (c : Char) : (∃ d ∈ ds, c = d.char) ∨ ∀ d ∈ ds, c ≠ d.char := by
  by_cases h : ∃ d ∈ ds, c = d.char
  · exact Or.inl h
  · exact Or.inr fun d hd he => h ⟨d, hd, he⟩

theorem char_not_mem_encodeBy (hd : d ∈ ds) : ∀ t : Text, d.char ∉ encodeBy ds t
  | [] => by simp
  | c :: t => by
    rcases char_or_not ds c with ⟨e, he, rfl⟩ | hc
    · rw [encodeBy_char he, List.mem_append, not_or]
      exact ⟨d.char_not_mem_token e, char_not_mem_encodeBy hd t⟩
    · rw [encodeBy_cons hc, List.mem_cons, not_or]
      exact ⟨Ne.symm (hc d hd), char_not_mem_encodeBy hd t⟩

/-- Encoding two lots of delimiters, one after the other. -/
theorem encodeBy_cons_eq (d : Delimiter) (ds : List Delimiter) : ∀ t : Text,
    encodeBy (d :: ds) t = encodeBy [d] (encodeBy ds t)
  | [] => rfl
  | c :: t => by
    rcases char_or_not ds c with ⟨e, he, rfl⟩ | hc
    · have token : encodeBy [d] e.token = e.token :=
        encodeBy_of_not_mem fun f _ => f.char_not_mem_token e
      rw [encodeBy_char (List.mem_cons_of_mem d he), encodeBy_char he, encodeBy_append, token,
        encodeBy_cons_eq d ds t]
    · rw [encodeBy_cons hc]
      by_cases h : c = d.char
      · subst h
        rw [encodeBy_char (List.mem_cons_self ..), encodeBy_char (List.mem_cons_self ..), encodeBy_cons_eq d ds t]
      · rw [encodeBy_cons (List.forall_mem_cons.mpr ⟨h, hc⟩), encodeBy_cons (by simpa using h),
          encodeBy_cons_eq d ds t]

/-- Nothing is lost by putting delimiters back where there were none. -/
theorem encodeBy_replace (d : Delimiter) (t : Text) :
    d.char ∉ t → encodeBy [d] (Text.replace d.token [d.char] t) = t := by
  induction t using Text.replace_induction d.token_ne_nil with
  | nil => exact fun _ => rfl
  | found rest ih =>
    intro h
    rw [Text.replace_append_self d.token_ne_nil, List.singleton_append, encodeBy_char (List.mem_cons_self ..),
      ih fun hm => h (List.mem_append_right _ hm)]
  | other c t hc ih =>
    intro h
    rw [List.mem_cons, not_or] at h
    have other : ∀ e ∈ [d], c ≠ e.char := List.forall_mem_singleton.mpr (Ne.symm h.1)
    rw [Text.replace_cons hc, encodeBy_cons other, ih h.2]

theorem char_not_mem_replace {e : Delimiter} (he : e ≠ d) {t : Text} (h : e.char ∉ t) :
    e.char ∉ Text.replace d.token [d.char] t := fun hm =>
  h (Text.mem_of_mem_replace d.token_ne_nil (fun hs => he (Delimiter.char_inj (List.mem_singleton.mp hs))) hm)

/-- A text without the given delimiters is what encoding makes of its expansion. -/
theorem encodeBy_expandBy : ∀ {ds : List Delimiter} {t : Text}, ds.Nodup → (∀ d ∈ ds, d.char ∉ t) →
    encodeBy ds (expandBy ds t) = t
  | [], t, _, _ => encodeBy_of_not_mem (by simp)
  | d :: ds, t, hn, h => by
    obtain ⟨hd, hn⟩ := List.nodup_cons.mp hn
    obtain ⟨head, tail⟩ := List.forall_mem_cons.mp h
    have others : ∀ e ∈ ds, e.char ∉ Text.replace d.token [d.char] t := fun e he =>
      char_not_mem_replace (ne_of_mem_of_not_mem he hd) (tail e he)
    rw [encodeBy_cons_eq, expandBy_cons, encodeBy_expandBy hn others, encodeBy_replace d t head]

/-! ## Expanding -/

theorem expandBy_append_cons (hc : isIdentifierChar c = false) : ∀ (ds : List Delimiter) (a b : Text),
    expandBy ds (a ++ c :: b) = expandBy ds a ++ c :: expandBy ds b
  | [], _, _ => rfl
  | d :: ds, a, b => by
    rw [expandBy_cons, Text.replace_append_cons d.token_ne_nil (d.not_mem_token hc), expandBy_append_cons hc ds]
    rfl

/-- A character that no token has stays where it is. -/
theorem expand_append_cons (hc : isIdentifierChar c = false) (a b : Text) :
    expand (a ++ c :: b) = expand a ++ c :: expand b := expandBy_append_cons hc _ a b

@[simp] theorem expand_nil : expand [] = [] := rfl

theorem expand_cons (hc : isIdentifierChar c = false) (t : Text) : expand (c :: t) = c :: expand t :=
  expand_append_cons hc [] t

theorem expand_append_left : ∀ {u : Text}, (∀ c ∈ u, isIdentifierChar c = false) → ∀ t : Text,
    expand (u ++ t) = u ++ expand t
  | [], _, _ => rfl
  | c :: u, h, t => by
    obtain ⟨hc, hu⟩ := List.forall_mem_cons.mp h
    rw [List.cons_append, expand_cons hc, expand_append_left hu, List.cons_append]

theorem expand_of_no_token {t : Text} (h : ∀ d : Delimiter, ¬ d.token <:+: t) : expand t = t := by
  have run : ∀ ds : List Delimiter, expandBy ds t = t := by
    intro ds
    induction ds with
    | nil => rfl
    | cons d ds ih => rw [expandBy_cons, Text.replace_of_not_infix (h d), ih]
  exact run Delimiter.all

theorem expand_ne_nil {t : Text} (h : t ≠ []) : expand t ≠ [] := by
  have run : ∀ (ds : List Delimiter) {t : Text}, t ≠ [] → expandBy ds t ≠ [] := by
    intro ds
    induction ds with
    | nil => exact fun h => h
    | cons d ds ih => exact fun h => ih (Text.replace_ne_nil (List.cons_ne_nil _ _) h)
  exact run Delimiter.all h

/-- Expanding puts in no characters but delimiters. -/
theorem mem_of_mem_expand (hc : ∀ d : Delimiter, c ≠ d.char) {t : Text} (h : c ∈ expand t) : c ∈ t := by
  have run : ∀ (ds : List Delimiter) {t : Text}, c ∈ expandBy ds t → c ∈ t := by
    intro ds
    induction ds with
    | nil => exact fun h => h
    | cons d ds ih => exact fun h => Text.mem_of_mem_replace d.token_ne_nil (by simpa using hc d) (ih h)
  exact run Delimiter.all h

theorem expand_unlines : ∀ ls : List Text, expand (Text.unlines ls) = Text.unlines (ls.map expand)
  | [] => rfl
  | l :: ls => by
    rw [Text.unlines_cons, expand_append_cons (by decide), expand_unlines ls, List.map_cons, Text.unlines_cons]

theorem newline_not_mem_expand {t : Text} (h : '\n' ∉ t) : '\n' ∉ expand t := fun hm =>
  h (mem_of_mem_expand (fun d => by cases d <;> decide) hm)

theorem lines_expand (t : Text) : Text.lines (expand t) = (Text.lines t).map expand := by
  rcases Text.exists_first_line t with h | ⟨a, b, ha, rfl⟩
  · rw [Text.lines_of_not_mem h, Text.lines_of_not_mem (newline_not_mem_expand h)]
    rfl
  · rw [expand_append_cons (by decide), Text.lines_append_newline ha,
      Text.lines_append_newline (newline_not_mem_expand ha), List.map_cons]
    by_cases hb : b = []
    · subst hb
      rfl
    · have shorter : b.length < (a ++ '\n' :: b).length := by
        simp only [List.length_append, List.length_cons]
        omega
      rw [if_neg hb, if_neg (expand_ne_nil hb), lines_expand b]
termination_by t.length

/-- After the tokens of some kinds are replaced, there are none of these kinds, and of the others only those
that were there before: the delimiters that are put in belong to no token. -/
theorem token_not_infix_expandBy : ∀ {ds : List Delimiter} {t : Text}, d ∈ ds ∨ ¬ d.token <:+: t →
    ¬ d.token <:+: expandBy ds t
  | [], _, h => h.resolve_left List.not_mem_nil
  | e :: ds, t, h => by
    rw [expandBy_cons]
    refine token_not_infix_expandBy ?_
    have clean : e.char ∉ d.token := e.char_not_mem_token d
    rcases h with hd | ht
    · rcases List.mem_cons.mp hd with rfl | hd
      · exact Or.inr (Text.not_infix_replace d.token_ne_nil clean t)
      · exact Or.inl hd
    · exact Or.inr fun hi => ht (Text.infix_of_infix_replace e.token_ne_nil d.token_ne_nil clean t hi)

/-- Expanding leaves no token, also none that its own replacements could have made, so that it changes nothing
when it is done again. It acts on each line apart. -/
theorem expand_complete :
    (∀ t : Text, (∀ d : Delimiter, ¬ d.token <:+: expand t) ∧ expand (expand t) = expand t) ∧
      ∀ a b : Text, expand (a ++ "\n".toList ++ b) = expand a ++ "\n".toList ++ expand b := by
  have complete : ∀ (t : Text) (d : Delimiter), ¬ d.token <:+: expand t := fun t d =>
    token_not_infix_expandBy (Or.inl d.mem_all)
  refine ⟨fun t => ⟨complete t, expand_of_no_token (complete t)⟩, fun a b => ?_⟩
  have newline : "\n".toList = ['\n'] := rfl
  have apart : isIdentifierChar '\n' = false := by decide
  rw [newline, List.append_assoc, List.append_assoc, List.singleton_append, List.singleton_append,
    expand_append_cons apart a b]

end Placeholder

end LslScript
