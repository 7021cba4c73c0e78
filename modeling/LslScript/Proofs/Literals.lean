import LslScript.Call
import LslScript.Proofs.Lookalikes

/-!
# String literals

What the arguments of a call are when the finished script is read. The words of the tokens hold neither
escapes nor quotes, so a text without these words still has none of them once it is escaped and quoted, and
expanding undoes its encoding.
-/

namespace LslScript

open Placeholder (expand encode expand_append_cons expand_cons)

namespace Text
variable {word t u : Text} {c : Char}

def Wordless (t : Text) : Prop := ∀ d : Delimiter, ¬ d.word <:+: t

instance (t : Text) : Decidable t.Wordless :=
  decidable_of_iff (∀ d ∈ Delimiter.all, ¬ d.word <:+: t) ⟨fun h d => h d d.mem_all, fun h d _ => h d⟩

theorem infix_append_cons (hw : word ≠ []) (hc : c ∉ word) : ∀ {a b : Text}, word <:+: a ++ c :: b →
    word <:+: a ∨ word <:+: b
  | [], b, h => by
    rcases List.infix_cons_iff.mp h with hp | hi
    · exact absurd (prefix_of_prefix_append_cons hc (a := []) hp) (by simpa using hw)
    · exact Or.inr hi
  | x :: a, b, h => by
    rcases List.infix_cons_iff.mp h with hp | hi
    · exact Or.inl (prefix_of_prefix_append_cons hc (a := x :: a) hp).isInfix
    · rcases infix_append_cons hw hc hi with ha | hb
      · exact Or.inl (List.infix_cons ha)
      · exact Or.inr hb

theorem Wordless.append_cons (ht : t.Wordless) (hu : u.Wordless) (hc : ∀ d : Delimiter, c ∉ d.word) :
    (t ++ c :: u).Wordless := by
  intro d h
  rcases infix_append_cons d.word_ne_nil (hc d) h with h | h
  · exact ht d h
  · exact hu d h

theorem wordless_nil : Wordless [] := fun d h => d.word_ne_nil (List.infix_nil.mp h)

theorem Wordless.cons (ht : t.Wordless) (hc : ∀ d : Delimiter, c ∉ d.word) : Wordless (c :: t) :=
  wordless_nil.append_cons ht hc

theorem replace_singleton (c : Char) (new : Text) : ∀ t : Text,
    replace [c] new t = t.flatMap fun x => if x = c then new else [x]
  | [] => rfl
  | x :: t => by
    have ih := replace_singleton c new t
    by_cases h : x = c
    · subst h
      have found : replace [x] new (x :: t) = new ++ replace [x] new t :=
        replace_append_self (List.cons_ne_nil x []) t
      rw [found, ih, List.flatMap_cons, if_pos rfl]
    · have other : ¬ [c] <+: x :: t := fun hp => h (List.cons_prefix_cons.mp hp).1.symm
      rw [replace_cons other, ih, List.flatMap_cons, if_neg h, List.singleton_append]

end Text

namespace Placeholder

theorem word_infix_of_mem_lookalikes {p : Text} : ∀ {ds : List Delimiter}, p ∈ lookalikes ds →
    ∃ d : Delimiter, d.word <:+: p
  | d :: ds, h => by
    rcases List.mem_append.mp h with h | h
    · obtain ⟨l, -, r, -, rfl⟩ := mem_lookalikesOf.mp h
      exact ⟨d, l, r, List.append_assoc ..⟩
    · exact word_infix_of_mem_lookalikes h

theorem expand_encode_of_wordless {t : Text} (h : t.Wordless) : expand (encode t) = t := by
  rw [← encodeBy_all, ← expandBy_all, expandBy_encodeBy_eq_iff (by decide)]
  intro ⟨p, hp, ht⟩
  obtain ⟨d, hd⟩ := word_infix_of_mem_lookalikes hp
  exact h d (hd.trans ht)

theorem expand_append_of_head {u : Text} (h : ∀ c ∈ u.head?, isIdentifierChar c = false) (t : Text) :
    expand (t ++ u) = expand t ++ expand u := by
  cases u with
  | nil => simp
  | cons c u =>
    have hc := h c rfl
    rw [expand_append_cons hc, expand_cons hc]

end Placeholder

theorem Text.expand_ofInt (n : Int) : expand (ofInt n) = ofInt n := by
  have digits : ∀ m : Nat, '_' ∉ ofNat m := fun m h => by
    have digit := Nat.isDigit_of_mem_toDigits (by decide) (by decide) h
    exact absurd digit (by decide)
  have numeral : '_' ∉ ofInt n := by
    unfold ofInt
    split
    · simp [digits]
    · exact digits _
  refine Placeholder.expand_of_no_token fun d hd => numeral (hd.subset ?_)
  rw [d.token_eq]
  exact List.mem_cons_self ..

namespace Call

/-! ## Escapes -/

inductive EscapedAs : Char → Char → Prop
  | backslash : EscapedAs '\\' '\\'
  | newline : EscapedAs '\n' 'n'
  | quote : EscapedAs '"' '"'

variable {c e : Char} {t : Text}

theorem escape_cons (c : Char) (t : Text) :
    (∃ e, EscapedAs c e ∧ escape (c :: t) = '\\' :: e :: escape t) ∨
      (c ≠ '\\' ∧ c ≠ '"' ∧ escape (c :: t) = c :: escape t) := by
  by_cases backslash : c = '\\'
  · subst backslash
    exact Or.inl ⟨_, .backslash, rfl⟩
  by_cases newline : c = '\n'
  · subst newline
    exact Or.inl ⟨_, .newline, rfl⟩
  by_cases quote : c = '"'
  · subst quote
    exact Or.inl ⟨_, .quote, rfl⟩
  · exact Or.inr ⟨backslash, quote, by simp [escape]⟩

/-- Escaping is three replacements in turn. Backslashes come first, because the others put backslashes in. -/
theorem escape_eq_replace (t : Text) :
    escape t = Text.replace ['"'] "\\\"" (Text.replace ['\n'] "\\n" (Text.replace ['\\'] "\\\\" t)) := by
  rw [Text.replace_singleton, Text.replace_singleton, Text.replace_singleton, List.flatMap_assoc,
    List.flatMap_assoc, escape]
  refine List.flatMap_congr fun c _ => ?_
  split
  · decide
  · decide
  · decide
  · simp_all

theorem EscapedAs.not_mem_word (h : EscapedAs c e) (d : Delimiter) : e ∉ d.word := by
  cases h <;> cases d <;> decide

theorem backslash_not_mem_word (d : Delimiter) : '\\' ∉ d.word := by cases d <;> decide

theorem prefix_of_prefix_escape : ∀ {w t : Text}, '\\' ∉ w → w <+: escape t → w <+: t
  | [], _, _, _ => List.nil_prefix
  | a :: w, [], _, h => absurd h (by simp [escape])
  | a :: w, c :: t, hw, h => by
    rw [List.mem_cons, not_or] at hw
    rcases escape_cons c t with ⟨e, -, he⟩ | ⟨-, -, he⟩
    · rw [he] at h
      exact absurd (List.cons_prefix_cons.mp h).1.symm hw.1
    · rw [he] at h
      obtain ⟨head, tail⟩ := List.cons_prefix_cons.mp h
      exact List.cons_prefix_cons.mpr ⟨head, prefix_of_prefix_escape hw.2 tail⟩

theorem wordless_escape : ∀ {t : Text}, t.Wordless → (escape t).Wordless
  | [], h => h
  | c :: t, h => by
    have tail := wordless_escape fun d hd => h d (List.infix_cons hd)
    rcases escape_cons c t with ⟨e, hce, he⟩ | ⟨-, -, he⟩
    · rw [he]
      exact (tail.cons hce.not_mem_word).cons backslash_not_mem_word
    · intro d hd
      rw [he] at hd
      rcases List.infix_cons_iff.mp hd with hp | hi
      · rw [← he] at hp
        exact h d (prefix_of_prefix_escape (backslash_not_mem_word d) hp).isInfix
      · exact tail d hi

def literal (t : Text) : Text := '"' :: (escape t ++ ['"'])

theorem expand_quoted (h : t.Wordless) : expand (quoted t) = literal t := by
  have quote : ∀ d : Delimiter, '"' ∉ d.word := Delimiter.doubleQuote.char_not_mem_word
  have wordless : (literal t).Wordless := ((wordless_escape h).append_cons Text.wordless_nil quote).cons quote
  have encoded : quoted t = encode (literal t) := by
    simp only [quoted, literal, encode, List.flatMap_cons, List.flatMap_append, List.flatMap_nil]
    rfl
  rw [encoded, Placeholder.expand_encode_of_wordless wordless]

/-- Reads a literal behind its opening quote, up to the first quote that is not escaped. Gives what it
holds, and the text that follows. -/
def literalBody? : Text → Option (Text × Text)
  | [] => none
  | '"' :: rest => some ([], rest)
  | '\\' :: '\\' :: rest => (literalBody? rest).map fun (t, after) => ('\\' :: t, after)
  | '\\' :: 'n' :: rest => (literalBody? rest).map fun (t, after) => ('\n' :: t, after)
  | '\\' :: '"' :: rest => (literalBody? rest).map fun (t, after) => ('"' :: t, after)
  | c :: rest => (literalBody? rest).map fun (t, after) => (c :: t, after)

def literal? : Text → Option (Text × Text)
  | '"' :: rest => literalBody? rest
  | _ => none

theorem EscapedAs.literalBody? (h : EscapedAs c e) (rest : Text) :
    literalBody? ('\\' :: e :: rest) = (Call.literalBody? rest).map fun (t, after) => (c :: t, after) := by
  cases h <;> rfl

theorem literalBody?_cons (hb : c ≠ '\\') (hq : c ≠ '"') (rest : Text) :
    literalBody? (c :: rest) = (literalBody? rest).map fun (t, after) => (c :: t, after) := by
  rw [literalBody?.eq_def]
  split <;> simp_all

theorem literalBody?_escape (rest : Text) : ∀ t : Text, literalBody? (escape t ++ '"' :: rest) = some (t, rest)
  | [] => rfl
  | c :: t => by
    have ih := literalBody?_escape rest t
    rcases escape_cons c t with ⟨e, hce, he⟩ | ⟨hb, hq, he⟩
    · rw [he, List.cons_append, List.cons_append, hce.literalBody?, ih]
      rfl
    · rw [he, List.cons_append, literalBody?_cons hb hq, ih]
      rfl

theorem literal?_literal (t rest : Text) : literal? (literal t ++ rest) = some (t, rest) := by
  have body : literal t ++ rest = '"' :: (escape t ++ '"' :: rest) := by simp [literal]
  rw [body, literal?, literalBody?_escape]

/-! ## Arguments -/

def literals? : Nat → Text → Option (List Text × Text)
  | 0, rest => some ([], rest)
  | n + 1, rest => do
    let (first, rest) ← (Text.after? ", " rest).bind literal?
    let (others, rest) ← literals? n rest
    pure (first :: others, rest)

def following (arguments : List Text) : Text := arguments.flatMap fun t => ", ".toList ++ t

theorem following_cons (t : Text) (ts : List Text) : following (t :: ts) = ", ".toList ++ (t ++ following ts) := by
  simp [following]

theorem listing_cons : ∀ (t : Text) (ts : List Text), Text.listing (t :: ts) = t ++ following ts
  | t, [] => by simp [Text.listing, following]
  | t, u :: ts => by
    rw [following_cons, ← listing_cons u ts, Text.listing_cons_cons]
    rfl

theorem literals?_following (rest : Text) : ∀ ts : List Text,
    literals? ts.length (following (ts.map literal) ++ rest) = some (ts, rest)
  | [] => rfl
  | t :: ts => by
    have comma : Text.after? ", " (", ".toList ++ (literal t ++ (following (ts.map literal) ++ rest))) =
        some (literal t ++ (following (ts.map literal) ++ rest)) := List.isPrefixOf?_eq_some_iff_append_eq.mpr rfl
    rw [List.map_cons, following_cons, List.append_assoc, List.append_assoc, List.length_cons, literals?, comma,
      Option.bind_some, literal?_literal]
    simp [literals?_following rest ts]

theorem head_following_append {ending : Text} (he : ∀ c ∈ ending.head?, isIdentifierChar c = false) :
    ∀ ts : List Text, ∀ c ∈ (following ts ++ ending).head?, isIdentifierChar c = false
  | [] => he
  | t :: ts => by
    rw [following_cons]
    simp [isIdentifierChar]

theorem expand_following {ending : Text} (he : ∀ c ∈ ending.head?, isIdentifierChar c = false) :
    ∀ {ts : List Text}, (∀ t ∈ ts, t.Wordless) →
      expand (following (ts.map quoted) ++ ending) = following (ts.map literal) ++ expand ending
  | [], _ => rfl
  | t :: ts, h => by
    obtain ⟨ht, hts⟩ := List.forall_mem_cons.mp h
    have blank : ∀ c ∈ ", ".toList, isIdentifierChar c = false := by simp [isIdentifierChar]
    rw [List.map_cons, List.map_cons, following_cons, following_cons, List.append_assoc, List.append_assoc,
      Placeholder.expand_append_left blank, Placeholder.expand_append_of_head (head_following_append he _),
      expand_quoted ht, expand_following he hts]
    simp

theorem expand_call {name ending : Text} (hn : expand name = name)
    (he : ∀ c ∈ ending, isIdentifierChar c = false) (number : Int) {ts : List Text} (hts : ∀ t ∈ ts, t.Wordless) :
    expand (name ++ '(' :: (Text.listing (Text.ofInt number :: ts.map quoted) ++ ending)) =
      name ++ '(' :: (Text.ofInt number ++ (following (ts.map literal) ++ ending)) := by
  have head : ∀ c ∈ ending.head?, isIdentifierChar c = false := fun c hc => he c (List.mem_of_mem_head? hc)
  have stays : expand ending = ending := by simpa using Placeholder.expand_append_left he []
  rw [expand_append_cons (by decide), hn, listing_cons, List.append_assoc,
    Placeholder.expand_append_of_head (head_following_append head _), Text.expand_ofInt,
    expand_following head hts, stays]

theorem expand_render_say (channel : Int32) {message : Text} (h : message.Wordless) :
    expand (say channel message).render =
      "llSay(" ++ Text.ofInt channel.toInt ++ (following ([message].map literal) ++ ");\n".toList) := by
  have wordless : ∀ t ∈ [message], t.Wordless := by simpa using h
  have stays : expand "llSay" = "llSay".toList := by decide
  have blank : ∀ c ∈ ");\n".toList, isIdentifierChar c = false := by simp [isIdentifierChar]
  have rendered : (say channel message).render =
      "llSay" ++ '(' :: (Text.listing (Text.ofInt channel.toInt :: [message].map quoted) ++ ");\n".toList) := by
    unfold render
    simp [listing_cons, following]
  rw [rendered, expand_call stays blank channel.toInt wordless]
  simp

theorem expand_render_listen (channel : Int32) {name : Text} {id : Key} {message : Text} (embed : Bool)
    (hn : name.Wordless) (hi : id.text.Wordless) (hm : message.Wordless) :
    expand (listen channel name id message embed).render =
      "llListen(" ++ Text.ofInt channel.toInt ++
        (following ([name, id.text, message].map literal) ++ if embed then ")".toList else ");\n".toList) := by
  have wordless : ∀ t ∈ [name, id.text, message], t.Wordless := by simp [hn, hi, hm]
  have stays : expand "llListen" = "llListen".toList := by decide
  have blank : ∀ c ∈ if embed then ")".toList else ");\n".toList, isIdentifierChar c = false := by
    cases embed <;> simp [isIdentifierChar]
  have rendered : (listen channel name id message embed).render =
      "llListen" ++ '(' :: (Text.listing (Text.ofInt channel.toInt :: [name, id.text, message].map quoted) ++
        if embed then ")".toList else ");\n".toList) := by
    unfold render
    simp
  rw [rendered, expand_call stays blank channel.toInt wordless]
  simp

/-- Whatever the texts hold apart from the words of tokens, the literals of the finished call are theirs, and
what follows the literals is the end of the call. -/
theorem expand_render_literals (channel : Int32) :
    (∀ message : Text, message.Wordless →
      ∃ arguments, expand (say channel message).render = "llSay(" ++ Text.ofInt channel.toInt ++ arguments ∧
        literals? 1 arguments = some ([message], ");\n".toList)) ∧
    (∀ (name : Text) (id : Key) (message : Text) (embed : Bool),
      name.Wordless → id.text.Wordless → message.Wordless →
      ∃ arguments,
        expand (listen channel name id message embed).render =
          "llListen(" ++ Text.ofInt channel.toInt ++ arguments ∧
        literals? 3 arguments =
          some ([name, id.text, message], if embed then ")".toList else ");\n".toList)) := by
  constructor
  · intro message hm
    exact ⟨_, expand_render_say channel hm, literals?_following _ [message]⟩
  · intro name id message embed hn hi hm
    exact ⟨_, expand_render_listen channel embed hn hi hm, literals?_following _ [name, id.text, message]⟩

/-- Escapes at the end of a text and next to quotes, braces, and underscores that could belong to a token. -/
theorem expand_render_literals_escapes :
    let name : Text := "__\"\\\"__obrac\x7b_e_\x7d\n"
    let message : Text := "\");\n\x7d\x7bllDie(); n\\n é\\"
    name.Wordless ∧ message.Wordless ∧
      ∃ arguments,
        expand (listen (-7) name ⟨[]⟩ message true).render = "llListen(-7" ++ arguments ∧
        literals? 3 arguments = some ([name, [], message], ")".toList) := by
  intro name message
  have wordless : name.Wordless ∧ message.Wordless ∧ Text.Wordless [] := by decide +kernel
  obtain ⟨hn, hm, he⟩ := wordless
  exact ⟨hn, hm, (expand_render_literals (-7)).2 name ⟨[]⟩ message true hn he hm⟩

end Call

end LslScript
