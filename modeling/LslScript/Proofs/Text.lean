import LslScript.Text.Blank
import LslScript.Text.Lines
import Mathlib.Data.List.DropRight

/-!
# Blanks, words and lines

What the functions that cut a text give back. Every text is blank or has a first word (`firstWord`),
which `words` takes off (`words_firstWord`); `lines` takes apart what `unlines` puts together.
-/

namespace LslScript

theorem mem_of_mem_splitOnP {α} {p : α → Bool} {t w : List α} (hw : w ∈ t.splitOnP p) :
    ∀ c ∈ w, p c = false ∧ c ∈ t := by
  induction t generalizing w with
  | nil => simp only [List.splitOnP_nil, List.mem_singleton] at hw; subst hw; simp
  | cons a t ih =>
    have inner : ∀ u ∈ t.splitOnP p, ∀ c ∈ u, p c = false ∧ c ∈ a :: t :=
      fun u hu c hc => ⟨(ih hu c hc).1, List.mem_cons_of_mem _ (ih hu c hc).2⟩
    rw [List.splitOnP_cons_eq_if_modifyHead] at hw
    cases ha : p a with
    | true =>
      rw [if_pos ha] at hw
      cases hw with
      | head => simp
      | tail _ hw => exact inner w hw
    | false =>
      rw [if_neg (by simp [ha])] at hw
      -- the character goes in front of the first part, which is never missing
      cases hs : t.splitOnP p with
      | nil => exact absurd hs (List.splitOnP_ne_nil p t)
      | cons v vs =>
        rw [hs] at hw inner
        cases hw with
        | head =>
          intro c hc
          cases hc with
          | head => exact ⟨ha, List.mem_cons_self ..⟩
          | tail _ hc => exact inner v (List.mem_cons_self ..) c hc
        | tail _ hw => exact inner w (List.mem_cons_of_mem _ hw)

namespace Text

theorem prefix_append_cases {α : Type} {t u v : List α} (h : t <+: u ++ v) :
    t <+: u ∨ ∃ w, t = u ++ w ∧ w <+: v := by
  obtain ⟨rest, hr⟩ := h
  rcases List.append_eq_append_iff.mp hr with ⟨w, rfl, -⟩ | ⟨w, rfl, hw⟩
  · exact Or.inl (List.prefix_append _ _)
  · exact Or.inr ⟨w, rfl, hw ▸ List.prefix_append _ _⟩

theorem splitOn_of_not_mem {c : Char} {t : Text} (h : c ∉ t) : t.splitOn c = [t] :=
  List.splitOnP_eq_singleton fun d hd => by simpa using ne_of_mem_of_not_mem hd h

/-- A run of characters of one kind ends in front of the first of another kind. -/
theorem span_append {p : Char → Bool} {run rest : Text} (hrun : ∀ c ∈ run, p c = true)
    (hrest : ∀ c ∈ rest.head?, p c = false) :
    (run ++ rest).takeWhile p = run ∧ (run ++ rest).dropWhile p = rest := by
  rw [List.takeWhile_append_of_pos hrun, List.dropWhile_append_of_pos hrun]
  cases rest with
  | nil => simp
  | cons c rest => simp [hrest c rfl]

/-! ## Blanks -/

@[simp] theorem isBlank_nil : isBlank [] = true := rfl

@[simp] theorem isBlank_cons (c : Char) (t : Text) : isBlank (c :: t) = (isBlankChar c && isBlank t) := rfl

@[simp] theorem isBlank_append (t u : Text) : isBlank (t ++ u) = (isBlank t && isBlank u) :=
  List.all_append

theorem not_mem_of_isBlank {c : Char} (hc : isBlankChar c = false) {t : Text} (ht : isBlank t = true) :
    c ∉ t := fun hm => by
  rw [List.all_eq_true.mp ht c hm] at hc
  cases hc

theorem trimEnd_append_tail (t : Text) : ∃ tail, isBlank tail = true ∧ t = trimEnd t ++ tail := by
  refine ⟨t.rtakeWhile isBlankChar, ?_, ?_⟩
  · exact List.all_eq_true.mpr fun c hc => List.mem_rtakeWhile_imp hc
  · exact List.rdropWhile_append_rtakeWhile.symm

theorem trimEnd_of_blank_tail {c : Char} (hc : isBlankChar c = false) (t tail : Text)
    (ht : isBlank tail = true) : trimEnd (t ++ c :: tail) = t ++ [c] := by
  induction tail using List.reverseRecOn with
  | nil => exact List.rdropWhile_concat_neg isBlankChar t c (by simp [hc])
  | append_singleton tail d ih =>
    simp only [isBlank_append, isBlank_cons, isBlank_nil, Bool.and_true, Bool.and_eq_true] at ht
    have e : t ++ c :: (tail ++ [d]) = (t ++ c :: tail) ++ [d] := by simp
    have hd := List.rdropWhile_concat_pos isBlankChar (t ++ c :: tail) d ht.2
    rw [e]
    exact hd.trans (ih ht.1)

theorem exists_append_trimStart (t : Text) : ∃ before, isBlank before = true ∧ t = before ++ trimStart t :=
  ⟨t.takeWhile isBlankChar, List.all_takeWhile, List.takeWhile_append_dropWhile.symm⟩

theorem trimStart_append {before t : Text} (hb : isBlank before = true)
    (ht : ∀ c ∈ t.head?, isBlankChar c = false) : trimStart (before ++ t) = t :=
  (span_append (List.all_eq_true.mp hb) ht).2

theorem trimEnd_append {t after : Text} (ha : isBlank after = true)
    (ht : ∀ c ∈ t.getLast?, isBlankChar c = false) : trimEnd (t ++ after) = t := by
  rcases List.eq_nil_or_concat t with rfl | ⟨t, c, rfl⟩
  · have blank : ∀ c ∈ after.reverse, isBlankChar c = true := fun c hc =>
      List.all_eq_true.mp ha c (List.mem_reverse.mp hc)
    simp [trimEnd, List.dropWhile_eq_nil_iff.mpr blank]
  · have hc := ht c (by simp)
    simpa using trimEnd_of_blank_tail hc t after ha

theorem trim_append {before t after : Text} (hb : isBlank before = true) (ha : isBlank after = true)
    (hne : t ≠ []) (hhead : ∀ c ∈ t.head?, isBlankChar c = false)
    (hlast : ∀ c ∈ t.getLast?, isBlankChar c = false) : trim (before ++ (t ++ after)) = t := by
  have head : ∀ c ∈ (t ++ after).head?, isBlankChar c = false := by
    rwa [List.head?_append_of_ne_nil t hne]
  rw [trim, trimStart_append hb head, trimEnd_append ha hlast]

/-! ## Words -/

/-- A text whose first word is `w`, with blanks before it and, behind it, nothing or a `rest` that
starts with a blank. -/
structure FirstWord (t w rest : Text) : Prop where
  split : ∃ before : Text, before.isBlank ∧ t = before ++ (w ++ rest)
  nonempty : w ≠ []
  solid : ∀ c ∈ w, isBlankChar c = false
  ends : ∀ c ∈ rest.head?, isBlankChar c = true

theorem isBlank_or_firstWord (t : Text) : isBlank t = true ∨ ∃ w rest, FirstWord t w rest := by
  by_cases h : t.dropWhile isBlankChar = []
  · left
    rw [List.dropWhile_eq_nil_iff] at h
    exact List.all_eq_true.mpr h
  · right
    let solid := fun c => !isBlankChar c
    refine ⟨(t.dropWhile isBlankChar).takeWhile solid, (t.dropWhile isBlankChar).dropWhile solid, ?_, ?_, ?_, ?_⟩
    · refine ⟨t.takeWhile isBlankChar, List.all_takeWhile, ?_⟩
      rw [List.takeWhile_append_dropWhile, List.takeWhile_append_dropWhile]
    · obtain ⟨c, u, hu⟩ := List.exists_cons_of_ne_nil h
      have hc := List.head?_dropWhile_not isBlankChar t
      rw [hu] at hc
      simp only [List.head?_cons] at hc
      rw [hu]
      simp [solid, hc]
    · intro c hc
      simpa [solid] using List.mem_takeWhile_imp hc
    · intro c hc
      have hd := List.head?_dropWhile_not solid (t.dropWhile isBlankChar)
      rw [Option.mem_def.mp hc] at hd
      simpa [solid] using hd

theorem words_append_blank {c : Char} (hc : isBlankChar c = true) (t u : Text) :
    words (t ++ c :: u) = words t ++ words u := by
  unfold words
  rw [List.splitOnP_append_cons t u hc, List.filter_append]

theorem words_cons_blank {c : Char} (hc : isBlankChar c = true) (t : Text) :
    words (c :: t) = words t :=
  words_append_blank hc [] t

theorem words_blank_append : ∀ {b : Text}, isBlank b = true → ∀ t, words (b ++ t) = words t
  | [], _, _ => rfl
  | c :: b, hb, t => by
    simp only [isBlank_cons, Bool.and_eq_true] at hb
    rw [List.cons_append, words_cons_blank hb.1, words_blank_append hb.2 t]

theorem words_solid {w : Text} (hne : w ≠ []) (hw : ∀ c ∈ w, isBlankChar c = false) : words w = [w] := by
  rw [words, List.splitOnP_eq_singleton hw]
  simp [hne]

theorem words_firstWord {t w rest : Text} (h : FirstWord t w rest) : words t = w :: words rest := by
  obtain ⟨before, hb, rfl⟩ := h.split
  have single := words_solid h.nonempty h.solid
  rw [words_blank_append hb]
  cases rest with
  | nil => rw [List.append_nil, single]; rfl
  | cons c rest =>
    have hc : isBlankChar c = true := h.ends c rfl
    rw [words_append_blank hc, single, words_cons_blank hc]
    rfl

theorem words_eq_nil_iff {t : Text} : words t = [] ↔ isBlank t = true := by
  constructor
  · intro h
    rcases isBlank_or_firstWord t with hb | ⟨w, rest, hw⟩
    · exact hb
    · rw [words_firstWord hw] at h; cases h
  · intro h
    have := words_blank_append h []
    rwa [List.append_nil] at this

theorem words_eq_cons_iff {t w : Text} {ws : List Text} :
    words t = w :: ws ↔ ∃ rest, FirstWord t w rest ∧ words rest = ws := by
  constructor
  · intro h
    rcases isBlank_or_firstWord t with hb | ⟨v, rest, hv⟩
    · rw [words_eq_nil_iff.mpr hb] at h; cases h
    · rw [words_firstWord hv] at h
      obtain ⟨rfl, rfl⟩ := List.cons.inj h
      exact ⟨rest, hv, rfl⟩
  · rintro ⟨rest, hw, rfl⟩
    exact words_firstWord hw

theorem listing_cons_cons (t u : Text) (ts : List Text) :
    listing (t :: u :: ts) = t ++ ',' :: ' ' :: listing (u :: ts) := by
  simp [listing, List.intercalate_cons_cons]

/-! ## Lines -/

theorem mem_splitOn_of_mem_lines {t l : Text} (h : l ∈ lines t) : l ∈ t.splitOn '\n' := by
  unfold lines at h
  split at h
  · exact List.dropLast_subset _ h
  · exact h

theorem newline_not_mem_of_mem_lines {t l : Text} (h : l ∈ lines t) : '\n' ∉ l := fun hn => by
  simpa using (mem_of_mem_splitOnP (mem_splitOn_of_mem_lines h) '\n' hn).1

theorem mem_of_mem_lines {t l : Text} (h : l ∈ lines t) {c : Char} (hc : c ∈ l) : c ∈ t :=
  (mem_of_mem_splitOnP (mem_splitOn_of_mem_lines h) c hc).2

@[simp] theorem unlines_nil : unlines [] = [] := rfl

@[simp] theorem unlines_cons (l : Text) (ls : List Text) : unlines (l :: ls) = l ++ '\n' :: unlines ls := by
  simp [unlines]

@[simp] theorem unlines_append (ls ms : List Text) : unlines (ls ++ ms) = unlines ls ++ unlines ms := by
  simp [unlines]

theorem mem_of_mem_unlines {ls : List Text} {c : Char} (h : c ∈ unlines ls) :
    c = '\n' ∨ ∃ l ∈ ls, c ∈ l := by
  obtain ⟨l, hl, hc⟩ := List.mem_flatMap.mp h
  rcases List.mem_append.mp hc with hc | hc
  · exact Or.inr ⟨l, hl, hc⟩
  · exact Or.inl (List.mem_singleton.mp hc)

theorem unlines_flatMap {α : Type} (f : α → List Text) (as : List α) :
    unlines (as.flatMap f) = as.flatMap fun a => unlines (f a) := List.flatMap_assoc

theorem splitOn_unlines : ∀ {ls : List Text}, (∀ l ∈ ls, '\n' ∉ l) →
    (unlines ls).splitOn '\n' = ls ++ [[]]
  | [], _ => rfl
  | l :: ls, h => by
    rw [unlines_cons, List.splitOn_append_cons_self_of_not_mem (h l (List.mem_cons_self ..)),
      splitOn_unlines fun m hm => h m (List.mem_cons_of_mem _ hm)]
    rfl

theorem getLast?_unlines {ls : List Text} (h : ls ≠ []) : (unlines ls).getLast? = some '\n' := by
  rw [← List.dropLast_append_getLast h]
  simp

theorem lines_unlines {ls : List Text} (h : ∀ l ∈ ls, '\n' ∉ l) (hne : ls ≠ []) :
    lines (unlines ls) = ls := by
  rw [lines, if_pos (getLast?_unlines hne), splitOn_unlines h, List.dropLast_concat]

theorem lines_of_not_mem {t : Text} (h : '\n' ∉ t) : lines t = [t] := by
  rw [lines, if_neg fun he => h (List.mem_of_getLast? he), splitOn_of_not_mem h]

/-- What stands behind the first newline are the other lines, if it is not the end of the text. -/
theorem lines_append_newline {a : Text} (h : '\n' ∉ a) (b : Text) :
    lines (a ++ '\n' :: b) = a :: if b = [] then [] else lines b := by
  unfold lines
  rw [List.splitOn_append_cons_self_of_not_mem h, List.getLast?_append, List.getLast?_cons]
  cases b with
  | nil => rfl
  | cons c b =>
    rw [if_neg (List.cons_ne_nil c b), List.getLast?_eq_some_getLast (List.cons_ne_nil c b)]
    by_cases hc : (c :: b).getLast (List.cons_ne_nil c b) = '\n'
    · simp [hc, List.dropLast_cons_of_ne_nil (List.splitOn_ne_nil '\n' (c :: b))]
    · simp [hc]

theorem exists_first_line (t : Text) : '\n' ∉ t ∨ ∃ a b, '\n' ∉ a ∧ t = a ++ '\n' :: b := by
  by_cases h : '\n' ∈ t
  · obtain ⟨a, b, rfl, ha⟩ := List.eq_append_cons_of_mem h
    exact Or.inr ⟨a, b, ha, rfl⟩
  · exact Or.inl h

/-- What is put in front of a text goes to its first line. -/
theorem exists_lines_append {u : Text} (hu : '\n' ∉ u) (t : Text) :
    ∃ first, lines (u ++ t) = (u ++ first) :: (lines t).tail := by
  have front : ∀ {a : Text}, '\n' ∉ a → '\n' ∉ u ++ a := fun ha => by simp [hu, ha]
  rcases exists_first_line t with h | ⟨a, b, ha, rfl⟩
  · rw [lines_of_not_mem (front h), lines_of_not_mem h]
    exact ⟨t, rfl⟩
  · rw [← List.append_assoc, lines_append_newline (front ha), lines_append_newline ha]
    exact ⟨a, rfl⟩

def terminated (t : Text) : Text := if t.getLast? = some '\n' then t else t ++ ['\n']

theorem terminated_ne_nil (t : Text) : terminated t ≠ [] := by
  unfold terminated
  split
  · rename_i h
    rintro rfl
    cases h
  · simp

theorem unlines_eq_intercalate : ∀ {ls : List Text}, ls ≠ [] →
    unlines ls = ['\n'].intercalate ls ++ ['\n']
  | [l], _ => by simp
  | l :: m :: ls, _ => by
    rw [unlines_cons, unlines_eq_intercalate (List.cons_ne_nil m ls), List.intercalate_cons_cons]
    simp

theorem unlines_splitOn (t : Text) : unlines (t.splitOn '\n') = t ++ ['\n'] := by
  rw [unlines_eq_intercalate (List.splitOn_ne_nil '\n' t), List.intercalate_splitOn]

theorem unlines_lines (t : Text) : unlines (lines t) = terminated t := by
  unfold lines terminated
  split
  · rename_i h
    obtain ⟨u, rfl⟩ := List.getLast?_eq_some_iff.mp h
    rw [List.splitOn_append_cons_self, List.splitOn_nil, List.dropLast_concat, unlines_splitOn]
  · exact unlines_splitOn t

end Text

end LslScript
