import LslScript.Proofs.Headers

/-!
# Listings of parameters

What the blanks in a listing count for. Tidying a text leaves the words between its commas as they are
(`Text.cells_tidied`), and these words are all that the reader of listings looks at
(`Param.listingSpelledBy_iff_cells`). So a text is read as some parameters exactly when it is tidied to
what they are written as.
-/

namespace LslScript

namespace Text

def cells (t : Text) : List (List Text) := (t.splitOn ',').map words

def unwords (ws : List Text) : Text := [' '].intercalate ws

/-- One blank between the words of a pair, one behind each comma, and no other. -/
def tidied (t : Text) : Text := listing (t.cells.map unwords)

theorem mem_words {t w : Text} (h : w ∈ words t) :
    w ≠ [] ∧ ∀ c ∈ w, isBlankChar c = false ∧ c ∈ t := by
  obtain ⟨hw, hne⟩ := List.mem_filter.mp h
  exact ⟨by simpa using hne, mem_of_mem_splitOnP hw⟩

theorem unwords_cons_cons (w v : Text) (ws : List Text) :
    unwords (w :: v :: ws) = w ++ ' ' :: unwords (v :: ws) := by
  simp [unwords, List.intercalate_cons_cons]

theorem words_unwords : ∀ {ws : List Text}, (∀ w ∈ ws, w ≠ [] ∧ ∀ c ∈ w, isBlankChar c = false) →
    words (unwords ws) = ws
  | [], _ => rfl
  | [w], h => by
    obtain ⟨hne, hw⟩ := h w (List.mem_cons_self ..)
    rw [unwords, List.intercalate_singleton, words_solid hne hw]
  | w :: v :: ws, h => by
    obtain ⟨hne, hw⟩ := h w (List.mem_cons_self ..)
    rw [unwords_cons_cons, words_append_blank (by decide), words_solid hne hw,
      words_unwords fun u hu => h u (List.mem_cons_of_mem _ hu)]
    rfl

theorem mem_unwords {c : Char} : ∀ {ws : List Text}, c ∈ unwords ws → c = ' ' ∨ ∃ w ∈ ws, c ∈ w
  | [w], h => Or.inr ⟨w, by simp, by simpa [unwords] using h⟩
  | w :: v :: ws, h => by
    rw [unwords_cons_cons, List.mem_append, List.mem_cons] at h
    rcases h with h | rfl | h
    · exact Or.inr ⟨w, by simp, h⟩
    · exact Or.inl rfl
    · exact (mem_unwords h).imp_right fun ⟨u, hu, hc⟩ => ⟨u, List.mem_cons_of_mem _ hu, hc⟩

/-! ## Cells -/

theorem cells_of_not_mem {t : Text} (h : ',' ∉ t) : cells t = [words t] := by
  rw [cells, splitOn_of_not_mem h]
  rfl

theorem cells_append_comma {a : Text} (h : ',' ∉ a) (t : Text) :
    cells (a ++ ',' :: t) = words a :: cells t := by
  rw [cells, List.splitOn_append_cons_self_of_not_mem h]
  rfl

theorem cells_cons_blank {c : Char} (hc : isBlankChar c = true) (t : Text) :
    cells (c :: t) = cells t := by
  have hne : (c == ',') = false := beq_eq_false_iff_ne.mpr fun he => by rw [he] at hc; cases hc
  obtain ⟨u, us, hs⟩ := List.exists_cons_of_ne_nil (List.splitOn_ne_nil ',' t)
  rw [cells, cells, List.splitOn_cons_eq_if_modifyHead, if_neg (by simp [hne]), hs, List.modifyHead_cons,
    List.map_cons, List.map_cons, words_cons_blank hc]

theorem not_comma_of_mem_cells {t : Text} {ws : List Text} (h : ws ∈ t.cells) : ',' ∉ unwords ws := fun hc => by
  obtain ⟨u, hu, rfl⟩ := List.mem_map.mp h
  rcases mem_unwords hc with hc | ⟨w, hw, hc⟩
  · cases hc
  · have := (mem_of_mem_splitOnP hu ',' ((mem_words hw).2 ',' hc).2).1
    simp at this

theorem cells_listing : ∀ {items : List Text}, items ≠ [] → (∀ i ∈ items, ',' ∉ i) →
    cells (listing items) = items.map words
  | [i], _, h => by
    have e : listing [i] = i := by simp [listing]
    rw [e, cells_of_not_mem (h i (by simp))]
    rfl
  | i :: j :: items, _, h => by
    rw [listing_cons_cons, cells_append_comma (h i (by simp)), cells_cons_blank (by decide),
      cells_listing (by simp) fun k hk => h k (List.mem_cons_of_mem _ hk)]
    rfl

theorem words_unwords_of_mem_cells {t : Text} {ws : List Text} (h : ws ∈ t.cells) : words (unwords ws) = ws := by
  obtain ⟨u, hu, rfl⟩ := List.mem_map.mp h
  exact words_unwords fun w hw => ⟨(mem_words hw).1, fun c hc => ((mem_words hw).2 c hc).1⟩

theorem cells_tidied (t : Text) : t.tidied.cells = t.cells := by
  have items : t.cells.map unwords ≠ [] := by simp [cells]
  have plain : ∀ i ∈ t.cells.map unwords, ',' ∉ i := by
    intro i hi
    obtain ⟨ws, hws, rfl⟩ := List.mem_map.mp hi
    exact not_comma_of_mem_cells hws
  calc t.tidied.cells = (t.cells.map unwords).map words := cells_listing items plain
    _ = t.cells.map (words ∘ unwords) := List.map_map
    _ = t.cells.map id := List.map_congr_left fun _ hws => words_unwords_of_mem_cells hws
    _ = t.cells := List.map_id _

end Text

namespace Param

def cells : List Param → List (List Text)
  | [] => [[]]
  | p :: ps => (p :: ps).map fun q => [q.type.name, q.ident]

theorem unwords_cell (p : Param) : Text.unwords [p.type.name, p.ident] = p.text := by
  simp [Text.unwords, text, List.intercalate_cons_cons]

theorem pairs_iff_words : ∀ {us : List Text} {ps : List Param},
    List.Forall₂ (fun u p => SpelledBy p u) us ps ↔
      (∀ p ∈ ps, isIdentifier p.ident = true) ∧ us.map Text.words = ps.map fun p => [p.type.name, p.ident]
  | [], [] => by simp
  | [], p :: ps => by simp
  | u :: us, [] => by simp
  | u :: us, p :: ps => by
    rw [List.forall₂_cons, pairs_iff_words, ← ofPair_eq_ok_iff, ofPair_eq_ok_iff_words, List.forall_mem_cons,
      List.map_cons, List.map_cons, List.cons.injEq]
    tauto

theorem listingSpelledBy_iff_cells {ps : List Param} {t : Text} :
    ListingSpelledBy ps t ↔ (∀ p ∈ ps, isIdentifier p.ident = true) ∧ t.cells = cells ps := by
  cases ps with
  | nil =>
    -- nothing but blanks: one cell, and no word in it
    constructor
    · rintro (⟨hb, _⟩ | ⟨pairs, hne, _, hp⟩)
      · have comma : ',' ∉ t := Text.not_mem_of_isBlank (by decide) hb
        exact ⟨by simp, by rw [Text.cells_of_not_mem comma, Text.words_eq_nil_iff.mpr hb]; rfl⟩
      · cases hp
        exact absurd rfl hne
    · rintro ⟨_, h⟩
      obtain ⟨u, hs, hu⟩ := List.map_eq_singleton_iff.mp h
      have whole : [','].intercalate (t.splitOn ',') = t := List.intercalate_splitOn ','
      rw [hs, List.intercalate_singleton] at whole
      exact Or.inl ⟨by rw [← whole, Text.words_eq_nil_iff.mp hu], rfl⟩
  | cons p ps =>
    constructor
    · rintro (⟨_, he⟩ | ⟨pairs, hne, rfl, hp⟩)
      · cases he
      · rw [Text.cells, List.splitOn_intercalate ',' (not_comma_of_pairs hp) hne]
        exact pairs_iff_words.mp hp
    · intro h
      exact Or.inr ⟨t.splitOn ',', List.splitOn_ne_nil ',' t, (List.intercalate_splitOn ',').symm,
        pairs_iff_words.mpr h⟩

theorem cells_listing {ps : List Param} (h : ∀ p ∈ ps, isIdentifier p.ident = true) :
    (listing ps).cells = cells ps :=
  (listingSpelledBy_iff_cells.mp (listingSpelledBy_listing h)).2

theorem listing_unwords : ∀ ps : List Param, Text.listing ((cells ps).map Text.unwords) = listing ps
  | [] => rfl
  | p :: ps => by
    rw [cells, List.map_map, listing]
    exact congrArg Text.listing (List.map_congr_left fun q _ => unwords_cell q)

theorem tidied_eq_listing_iff {ps : List Param} (h : ∀ p ∈ ps, isIdentifier p.ident = true) {t : Text} :
    t.tidied = listing ps ↔ t.cells = cells ps := by
  constructor
  · intro e
    rw [← Text.cells_tidied, e, cells_listing h]
  · intro e
    rw [Text.tidied, e, listing_unwords]

/-- Parameters are read back from what they are written as, and from every other text that is tidied to
this; no other text is read as them. -/
theorem ofListing_eq_ok_iff_tidied (ps : List Param) :
    ((∀ p ∈ ps, isIdentifier p.ident = true) → ofListing (listing ps) = .ok ps) ∧
      ∀ t, ofListing t = .ok ps ↔
        (∀ p ∈ ps, isIdentifier p.ident = true) ∧ ofListing (listing ps) = .ok ps ∧
          t.tidied = listing ps := by
  have written : (∀ p ∈ ps, isIdentifier p.ident = true) → ofListing (listing ps) = .ok ps := fun h =>
    ofListing_eq_ok_iff.mpr (listingSpelledBy_listing h)
  refine ⟨written, fun t => ?_⟩
  rw [ofListing_eq_ok_iff, listingSpelledBy_iff_cells]
  constructor
  · rintro ⟨hi, hc⟩
    exact ⟨hi, written hi, (tidied_eq_listing_iff hi).mpr hc⟩
  · rintro ⟨hi, _, ht⟩
    exact ⟨hi, (tidied_eq_listing_iff hi).mp ht⟩

/-- Blanks of any kind around a comma, and more than one between the words of a pair. -/
theorem ofListing_eq_ok_iff_tidied_loose :
    let ps : List Param := [⟨.integer, "count"⟩, ⟨.key, "_id"⟩]
    let loose : Text := "\u00a0integer\t count\u3000,key   _id\n"
    (∀ p ∈ ps, isIdentifier p.ident = true) ∧ ofListing (listing ps) = .ok ps ∧
      loose.tidied = listing ps ∧ ofListing loose = .ok ps := by
  intro ps loose
  have idents : ∀ p ∈ ps, isIdentifier p.ident = true := by decide
  have tidy : loose.tidied = listing ps := by decide +kernel
  obtain ⟨written, read⟩ := ofListing_eq_ok_iff_tidied ps
  exact ⟨idents, written idents, tidy, (read loose).mpr ⟨idents, written idents, tidy⟩⟩

end Param

end LslScript
