import LslScript.Proofs.Expanding
import Mathlib.Data.List.Infix

/-!
# Expanding what was encoded

Encoding puts a token for every delimiter, and expanding puts the delimiters back. A part of a text can make
a token together with the underscores of one that was put in, and expanding takes the token that it meets
first. `Placeholder.lookalikes` lists these parts; expanding undoes encoding for the texts without one, and
for no others (`Placeholder.expand_encode_eq_iff`).
-/

namespace LslScript.Placeholder

def leftEdges (ds : List Delimiter) : List Text :=
  ['_', '_'] :: ds.flatMap fun d => [[d.char, '_'], [d.char]]

def rightEdges (ds : List Delimiter) : List Text :=
  ['_', '_'] :: ds.flatMap fun d => [['_', d.char], [d.char]]

/-- The parts of a text that look like the token of `d` when `d` and the delimiters behind it are
encoded. A `d` in front of the word makes none, because its own token is met first. -/
def lookalikesOf (d : Delimiter) (ds : List Delimiter) : List Text :=
  (leftEdges ds).flatMap fun l => (rightEdges (d :: ds)).map fun r => l ++ (d.word ++ r)

/-- The parts of a text that expanding mistakes for a token when the given delimiters are encoded. -/
def lookalikes : List Delimiter → List Text
  | [] => []
  | d :: ds => lookalikesOf d ds ++ lookalikes ds

variable {d e : Delimiter} {ds : List Delimiter} {c : Char} {t : Text}

theorem mem_leftEdges {l : Text} :
    l ∈ leftEdges ds ↔ l = ['_', '_'] ∨ ∃ d ∈ ds, l = [d.char, '_'] ∨ l = [d.char] := by
  simp [leftEdges]

theorem mem_rightEdges {r : Text} :
    r ∈ rightEdges ds ↔ r = ['_', '_'] ∨ ∃ d ∈ ds, r = ['_', d.char] ∨ r = [d.char] := by
  simp [rightEdges]

theorem mem_lookalikesOf {p : Text} :
    p ∈ lookalikesOf d ds ↔ ∃ l ∈ leftEdges ds, ∃ r ∈ rightEdges (d :: ds), p = l ++ (d.word ++ r) := by
  simp [lookalikesOf, eq_comm]

/-! ## Where an encoded text starts like a token -/

theorem encodeBy_char_eq (hd : d ∈ ds) (t : Text) :
    encodeBy ds (d.char :: t) = '_' :: '_' :: (d.word ++ '_' :: '_' :: encodeBy ds t) := by
  rw [encodeBy_char hd, d.token_eq]
  simp

/-- Letters in an encoded text are letters of the text. -/
theorem letters_prefix_iff (v : Text) : ∀ {w t : Text}, '_' ∉ w → (∀ d ∈ ds, d.char ∉ w) →
    (w ++ v <+: encodeBy ds t ↔ ∃ u, t = w ++ u ∧ v <+: encodeBy ds u)
  | [], t, _, _ => by simp
  | a :: w, [], _, _ => by simp
  | a :: w, c :: t, hu, hw => by
    simp only [List.mem_cons, not_or] at hu hw
    rcases char_or_not ds c with ⟨e, he, rfl⟩ | hc
    · rw [encodeBy_char_eq he]
      constructor
      · intro h
        exact absurd (List.cons_prefix_cons.mp h).1.symm hu.1
      · rintro ⟨u, hu', -⟩
        exact absurd (List.cons.inj hu').1 (hw e he).1
    · rw [encodeBy_cons hc, List.cons_append, List.cons_prefix_cons,
        letters_prefix_iff v hu.2 fun d hd => (hw d hd).2]
      simp only [List.cons_append, List.cons.injEq]
      constructor
      · rintro ⟨rfl, u, rfl, hv⟩
        exact ⟨u, ⟨rfl, rfl⟩, hv⟩
      · rintro ⟨u, ⟨rfl, rfl⟩, hv⟩
        exact ⟨rfl, u, rfl, hv⟩

/-- An underscore in front of a letter is one of the text too: a token starts with two. -/
theorem underscore_prefix_iff {a : Char} (ha : a ≠ '_') (v : Text) :
    '_' :: a :: v <+: encodeBy ds t ↔ ∃ u, t = '_' :: u ∧ a :: v <+: encodeBy ds u := by
  cases t with
  | nil => simp
  | cons c t =>
    rcases char_or_not ds c with ⟨e, he, rfl⟩ | hc
    · rw [encodeBy_char_eq he, List.cons_prefix_cons, List.cons_prefix_cons]
      simp [ha, e.char_ne_underscore]
    · rw [encodeBy_cons hc, List.cons_prefix_cons]
      simp [eq_comm]

theorem encodeBy_underscore (t : Text) : encodeBy ds ('_' :: t) = '_' :: encodeBy ds t :=
  encodeBy_cons (fun d _ => d.char_ne_underscore.symm) t

theorem underscores_prefix_iff :
    ['_', '_'] <+: encodeBy ds t ↔ ∃ r ∈ rightEdges ds, r <+: t := by
  simp only [mem_rightEdges]
  constructor
  · intro h
    cases t with
    | nil => simp at h
    | cons c t =>
      rcases char_or_not ds c with ⟨e, he, rfl⟩ | hc
      · exact ⟨[e.char], Or.inr ⟨e, he, Or.inr rfl⟩, List.prefix_append [e.char] t⟩
      -- the first underscore stayed as it is, so the second comes from the next character
      · rw [encodeBy_cons hc] at h
        obtain ⟨rfl, second⟩ := List.cons_prefix_cons.mp h
        cases t with
        | nil => simp at second
        | cons b t =>
          rcases char_or_not ds b with ⟨e, he, rfl⟩ | hb
          · exact ⟨['_', e.char], Or.inr ⟨e, he, Or.inl rfl⟩, List.prefix_append ['_', e.char] t⟩
          · rw [encodeBy_cons hb] at second
            obtain ⟨rfl, -⟩ := List.cons_prefix_cons.mp second
            exact ⟨['_', '_'], Or.inl rfl, List.prefix_append ['_', '_'] t⟩
  · rintro ⟨r, rfl | ⟨e, he, rfl | rfl⟩, u, rfl⟩
    · simp [encodeBy_underscore]
    · simp [encodeBy_underscore, encodeBy_char_eq he]
    · simp [encodeBy_char_eq he]

theorem word_prefix_iff (d : Delimiter) :
    d.word ++ ['_', '_'] <+: encodeBy ds t ↔ ∃ r ∈ rightEdges ds, d.word ++ r <+: t := by
  rw [letters_prefix_iff _ d.underscore_not_mem_word fun e _ => e.char_not_mem_word d]
  simp only [underscores_prefix_iff]
  constructor
  · rintro ⟨u, rfl, r, hr, hp⟩
    exact ⟨r, hr, (List.prefix_append_right_inj d.word).mpr hp⟩
  · rintro ⟨r, hr, u, rfl⟩
    exact ⟨r ++ u, List.append_assoc .., r, hr, List.prefix_append r u⟩

theorem underscore_word_prefix_iff (d : Delimiter) :
    '_' :: (d.word ++ ['_', '_']) <+: encodeBy ds t ↔ ∃ r ∈ rightEdges ds, '_' :: (d.word ++ r) <+: t := by
  obtain ⟨a, w, hw⟩ := List.exists_cons_of_ne_nil d.word_ne_nil
  have ha : a ≠ '_' := fun he => d.underscore_not_mem_word (he ▸ hw ▸ List.mem_cons_self ..)
  rw [hw, List.cons_append, underscore_prefix_iff ha, ← List.cons_append, ← hw]
  simp only [word_prefix_iff]
  constructor
  · rintro ⟨u, rfl, r, hr, hp⟩
    exact ⟨r, hr, List.cons_prefix_cons.mpr ⟨rfl, hp⟩⟩
  · rintro ⟨r, hr, u, rfl⟩
    exact ⟨d.word ++ r ++ u, rfl, r, hr, List.prefix_append _ u⟩

/-- A text starts like a lookalike behind one of the left edges. -/
theorem starts_iff : (∃ p ∈ lookalikesOf d ds, p <+: t) ↔
    ∃ l ∈ leftEdges ds, ∃ r ∈ rightEdges (d :: ds), l ++ (d.word ++ r) <+: t := by
  simp only [mem_lookalikesOf]
  constructor
  · rintro ⟨_, ⟨l, hl, r, hr, rfl⟩, hp⟩
    exact ⟨l, hl, r, hr, hp⟩
  · rintro ⟨l, hl, r, hr, hp⟩
    exact ⟨_, ⟨l, hl, r, hr, rfl⟩, hp⟩

/-- No lookalike starts with a character other than an underscore and the delimiters behind `d`. -/
theorem not_starts (hu : c ≠ '_') (hc : ∀ e ∈ ds, c ≠ e.char) : ¬ ∃ p ∈ lookalikesOf d ds, p <+: c :: t := by
  rw [starts_iff]
  rintro ⟨l, hl, r, -, hp⟩
  rcases mem_leftEdges.mp hl with rfl | ⟨e, he, rfl | rfl⟩
  · exact hu (List.cons_prefix_cons.mp hp).1.symm
  · exact hc e he (List.cons_prefix_cons.mp hp).1.symm
  · exact hc e he (List.cons_prefix_cons.mp hp).1.symm

theorem starts_underscore_iff : (∃ p ∈ lookalikesOf d ds, p <+: '_' :: t) ↔
    '_' :: (d.word ++ ['_', '_']) <+: encodeBy (d :: ds) t := by
  rw [starts_iff, underscore_word_prefix_iff]
  constructor
  · rintro ⟨l, hl, r, hr, hp⟩
    rcases mem_leftEdges.mp hl with rfl | ⟨e, -, rfl | rfl⟩
    · exact ⟨r, hr, (List.cons_prefix_cons.mp hp).2⟩
    · exact absurd (List.cons_prefix_cons.mp hp).1 e.char_ne_underscore
    · exact absurd (List.cons_prefix_cons.mp hp).1 e.char_ne_underscore
  · rintro ⟨r, hr, hp⟩
    exact ⟨_, mem_leftEdges.mpr (Or.inl rfl), r, hr, List.cons_prefix_cons.mpr ⟨rfl, hp⟩⟩

theorem starts_char_iff (he : e ∈ ds) : (∃ p ∈ lookalikesOf d ds, p <+: e.char :: t) ↔
    d.word ++ ['_', '_'] <+: encodeBy (d :: ds) t ∨ '_' :: (d.word ++ ['_', '_']) <+: encodeBy (d :: ds) t := by
  rw [starts_iff, word_prefix_iff, underscore_word_prefix_iff]
  constructor
  · rintro ⟨l, hl, r, hr, hp⟩
    rcases mem_leftEdges.mp hl with rfl | ⟨f, -, rfl | rfl⟩
    · exact absurd (List.cons_prefix_cons.mp hp).1.symm e.char_ne_underscore
    · exact Or.inr ⟨r, hr, (List.cons_prefix_cons.mp hp).2⟩
    · exact Or.inl ⟨r, hr, (List.cons_prefix_cons.mp hp).2⟩
  · rintro (⟨r, hr, hp⟩ | ⟨r, hr, hp⟩)
    · exact ⟨[e.char], mem_leftEdges.mpr (Or.inr ⟨e, he, Or.inr rfl⟩), r, hr, List.cons_prefix_cons.mpr ⟨rfl, hp⟩⟩
    · exact ⟨[e.char, '_'], mem_leftEdges.mpr (Or.inr ⟨e, he, Or.inl rfl⟩), r, hr,
        List.cons_prefix_cons.mpr ⟨rfl, hp⟩⟩

/-- Replacing keeps a character if no word starts there. -/
theorem replace_cons_eq_iff (hc : c ≠ d.char) (s s' : Text) :
    Text.replace d.token [d.char] (c :: s) = c :: s' ↔
      ¬ d.token <+: c :: s ∧ Text.replace d.token [d.char] s = s' := by
  by_cases hp : d.token <+: c :: s
  · obtain ⟨rest, hr⟩ := id hp
    rw [← hr, Text.replace_append_self d.token_ne_nil]
    simp [hc.symm]
  · rw [Text.replace_cons hp]
    simp [hp]

theorem token_prefix_iff (s : Text) : d.token <+: '_' :: s ↔ '_' :: (d.word ++ ['_', '_']) <+: s := by
  rw [d.token_eq, List.cons_prefix_cons, and_iff_right rfl]

/-- The token of another delimiter stays up to its last underscores. -/
theorem replace_other_token (he : e ≠ d) (s : Text) :
    Text.replace d.token [d.char] ('_' :: '_' :: (e.word ++ s)) =
      '_' :: '_' :: (e.word ++ Text.replace d.token [d.char] s) := by
  -- no word starts at the underscores: the letters behind them are those of the other token
  have first : ¬ d.token <+: '_' :: '_' :: (e.word ++ s) := by
    rw [token_prefix_iff, List.cons_prefix_cons]
    rintro ⟨-, rest, h⟩
    rw [List.append_assoc] at h
    exact he (Delimiter.word_inj (List.append_inj_left h (Delimiter.word_length_eq d e))).symm
  have second : ¬ d.token <+: '_' :: (e.word ++ s) := by
    obtain ⟨a, w, hw⟩ := List.exists_cons_of_ne_nil e.word_ne_nil
    rw [token_prefix_iff, hw, List.cons_append, List.cons_prefix_cons]
    rintro ⟨rfl, -⟩
    exact e.underscore_not_mem_word (hw ▸ List.mem_cons_self ..)
  have letters : ∀ w : Text, '_' ∉ w →
      Text.replace d.token [d.char] (w ++ s) = w ++ Text.replace d.token [d.char] s := by
    intro w hw
    induction w with
    | nil => rfl
    | cons a w ih =>
      rw [List.mem_cons, not_or] at hw
      have none : ¬ d.token <+: a :: (w ++ s) := by
        rw [d.token_eq, List.cons_prefix_cons]
        exact fun h => hw.1 h.1
      rw [List.cons_append, Text.replace_cons none, ih hw.2, List.cons_append]
  rw [Text.replace_cons first, Text.replace_cons second, letters e.word e.underscore_not_mem_word]

/-- Replacing the token of one kind of delimiter puts back exactly the delimiters of this kind, unless the
text has a lookalike. -/
theorem replace_encodeBy_eq_iff (hd : d ∉ ds) : ∀ t : Text,
    Text.replace d.token [d.char] (encodeBy (d :: ds) t) = encodeBy ds t ↔
      ¬ ∃ p ∈ lookalikesOf d ds, p <:+: t
  | [] => by
    simp [mem_lookalikesOf, d.word_ne_nil]
  | c :: t => by
    have ih := replace_encodeBy_eq_iff hd t
    have split : (∃ p ∈ lookalikesOf d ds, p <:+: c :: t) ↔
        (∃ p ∈ lookalikesOf d ds, p <+: c :: t) ∨ ∃ p ∈ lookalikesOf d ds, p <:+: t := by
      simp only [List.infix_cons_iff, and_or_left, exists_or]
    rw [split, not_or, ← ih]
    have other : ∀ e ∈ ds, d.char ≠ e.char := fun e he h => hd (Delimiter.char_inj h ▸ he)
    -- by the first character: one of `d`, one of the other delimiters, or one that stays
    rcases char_or_not (d :: ds) c with ⟨e, he, rfl⟩ | hc
    · rcases List.mem_cons.mp he with rfl | he
      · rw [encodeBy_char (List.mem_cons_self ..), encodeBy_cons other, Text.replace_append_self e.token_ne_nil,
          and_iff_right (not_starts e.char_ne_underscore other), List.singleton_append, List.cons.injEq,
          and_iff_right rfl]
      · have hne : e ≠ d := ne_of_mem_of_not_mem he hd
        rw [encodeBy_char_eq (List.mem_cons_of_mem d he), encodeBy_char_eq he, replace_other_token hne,
          starts_char_iff he, List.cons.injEq, List.cons.injEq, List.append_right_inj,
          replace_cons_eq_iff d.char_ne_underscore.symm, replace_cons_eq_iff d.char_ne_underscore.symm,
          token_prefix_iff, token_prefix_iff, List.cons_prefix_cons]
        tauto
    · have hcs : ∀ e ∈ ds, c ≠ e.char := fun e he => hc e (List.mem_cons_of_mem d he)
      rw [encodeBy_cons hc, encodeBy_cons hcs, replace_cons_eq_iff (hc d (List.mem_cons_self ..))]
      by_cases hu : c = '_'
      · subst hu
        rw [token_prefix_iff, starts_underscore_iff]
      · have none : ¬ d.token <+: c :: encodeBy (d :: ds) t := by
          rw [d.token_eq, List.cons_prefix_cons]
          exact fun h => hu h.1.symm
        rw [and_iff_right none, and_iff_right (not_starts hu hcs)]

/-! ## All kinds -/

theorem expandBy_encodeBy_eq_iff : ∀ {ds : List Delimiter}, ds.Nodup → ∀ t : Text,
    expandBy ds (encodeBy ds t) = t ↔ ¬ ∃ p ∈ lookalikes ds, p <:+: t
  | [], _, t => by
    simp [lookalikes, expandBy, encodeBy_of_not_mem]
  | d :: ds, hn, t => by
    obtain ⟨hd, hn⟩ := List.nodup_cons.mp hn
    have ih := expandBy_encodeBy_eq_iff hn t
    have step := replace_encodeBy_eq_iff hd t
    have split : (∃ p ∈ lookalikes (d :: ds), p <:+: t) ↔
        (∃ p ∈ lookalikesOf d ds, p <:+: t) ∨ ∃ p ∈ lookalikes ds, p <:+: t := by
      simp only [lookalikes, List.mem_append, or_and_right, exists_or]
    rw [split, not_or, ← step, ← ih]
    constructor
    · intro h
      -- what the first kind leaves is determined by its expansion, because it has no other delimiter
      have clean : ∀ e ∈ ds, e.char ∉ Text.replace d.token [d.char] (encodeBy (d :: ds) t) := fun e he =>
        char_not_mem_replace (ne_of_mem_of_not_mem he hd) (char_not_mem_encodeBy (List.mem_cons_of_mem d he) t)
      have first := encodeBy_expandBy hn clean
      rw [expandBy_cons] at h
      rw [h] at first
      refine ⟨first.symm, ?_⟩
      rw [first]
      exact h
    · rintro ⟨first, rest⟩
      rw [expandBy_cons, first]
      exact rest

/-- Expanding undoes encoding exactly for the texts without a lookalike. -/
theorem expand_encode_eq_iff (t : Text) :
    expand (encode t) = t ↔ ∀ p ∈ lookalikes Delimiter.all, ¬ p <:+: t := by
  rw [← encodeBy_all, ← expandBy_all, expandBy_encodeBy_eq_iff (by decide)]
  simp only [not_exists, not_and]

/-- An underscore and a word in front of a brace, and no token: the brace's own underscores make one. -/
theorem expand_encode_overlap :
    ¬ ∀ t : Text, (∀ d : Delimiter, ¬ d.token <:+: t) → expand (encode t) = t := by
  intro h
  have plain : ∀ d : Delimiter, ¬ d.token <:+: "__obrace\x7b".toList := by
    intro d
    cases d <;> decide +kernel
  exact absurd (h _ plain) (by decide +kernel)

end LslScript.Placeholder
