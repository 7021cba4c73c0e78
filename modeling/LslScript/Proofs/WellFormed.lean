import LslScript.Proofs.Reader

/-!
# Well-formed scripts

What holds of every script that is read or edited into being. A text is read as a well-formed script
(`wellFormed_of_ofText`), and a well-formed script is read back from its own text (`ofText_text`).
-/

namespace LslScript

namespace Ending

/-- A closing line that is kept as it is starts like one and is not the sentinel. -/
def Closes (mark sentinel : Text) : Ending → Prop
  | .sentinel => True
  | .verbatim line => line ≠ sentinel ∧ Text.startsWith mark line = true ∧ '\n' ∉ line

theorem closes_ofLine {mark sentinel line : Text} (hm : Text.startsWith mark line = true)
    (hn : '\n' ∉ line) : (ofLine sentinel line).Closes mark sentinel := by
  unfold ofLine
  split
  · trivial
  · rename_i h; exact ⟨h, hm, hn⟩

theorem line_ofLine (sentinel line : Text) : (ofLine sentinel line).line sentinel = line := by
  unfold ofLine
  split
  · rename_i h; exact h.symm
  · rfl

variable {mark sentinel : Text} {e : Ending}

theorem ofLine_line (h : e.Closes mark sentinel) : ofLine sentinel (e.line sentinel) = e := by
  cases e with
  | sentinel => exact if_pos rfl
  | verbatim line => exact if_neg h.1

theorem startsWith_line (hs : Text.startsWith mark sentinel = true) (h : e.Closes mark sentinel) :
    Text.startsWith mark (e.line sentinel) = true := by
  cases e with
  | sentinel => exact hs
  | verbatim line => exact h.2.1

theorem newline_not_mem_line (hs : '\n' ∉ sentinel) (h : e.Closes mark sentinel) :
    '\n' ∉ e.line sentinel := by
  cases e with
  | sentinel => exact hs
  | verbatim line => exact h.2.2

end Ending

theorem Param.mem_text {p : Param} (h : isIdentifier p.ident = true) {c : Char} (hc : c ∈ p.text) :
    isIdentifierChar c = true ∨ c = ' ' := by
  simp only [text, List.mem_append] at hc
  rcases hc with (hc | hc) | hc
  · exact Or.inl (isIdentifierChar_of_mem p.type.isIdentifier_name c hc)
  · exact Or.inr (by simpa using hc)
  · exact Or.inl (isIdentifierChar_of_mem h c hc)

theorem Param.mem_listing : ∀ {ps : List Param}, (∀ p ∈ ps, isIdentifier p.ident = true) →
    ∀ {c : Char}, c ∈ listing ps → isIdentifierChar c = true ∨ c = ' ' ∨ c = ','
  | [], _, c, hc => by simp [listing, Text.listing] at hc
  | [p], h, c, hc => by
    have := mem_text (h p (by simp)) (show c ∈ p.text by simpa [listing, Text.listing] using hc)
    exact this.imp_right Or.inl
  | p :: q :: ps, h, c, hc => by
    rw [listing_cons_cons, List.mem_append, List.mem_cons, List.mem_cons] at hc
    rcases hc with hc | rfl | rfl | hc
    · exact (mem_text (h p (by simp)) hc).imp_right Or.inl
    · exact Or.inr (Or.inr rfl)
    · exact Or.inr (Or.inl rfl)
    · exact mem_listing (fun r hr => h r (List.mem_cons_of_mem _ hr)) hc

/-- The characters of a header are those of identifiers and these four. -/
theorem Param.mem_header {name : Text} {ps : List Param} (hn : isIdentifier name = true)
    (hp : ∀ p ∈ ps, isIdentifier p.ident = true) {c : Char} (hc : c ∈ header name ps) :
    isIdentifierChar c = true ∨ c ∈ [' ', ',', '(', ')'] := by
  simp only [header, List.mem_append] at hc
  rcases hc with ((hc | hc) | hc) | hc
  · exact Or.inl (isIdentifierChar_of_mem hn c hc)
  · have : c = '(' := by simpa using hc
    simp [this]
  · rcases mem_listing hp hc with h | rfl | rfl
    · exact Or.inl h
    · simp
    · simp
  · have : c = ')' := by simpa using hc
    simp [this]

/-! ## Well-formed blocks -/

structure FunctionDef.WellFormed (b : FunctionDef) : Prop where
  name : isIdentifier b.name = true
  params : ∀ p ∈ b.params, isIdentifier p.ident = true
  body : ∀ l ∈ b.body, Text.startsWith "\x7d" l = false ∧ '\n' ∉ l
  ending : b.ending.Closes "\x7d" (Sentinel.function b.name)

structure Handler.WellFormed (b : Handler) : Prop where
  params : ∀ p ∈ b.params, isIdentifier p.ident = true
  types : b.params.map (·.type) = b.event.types
  body : ∀ l ∈ b.body,
    (Text.startsWith (indentUnit ++ "\x7d") l = false ∧ Text.startsWith "\x7d" l = false) ∧ '\n' ∉ l
  ending : b.ending.Closes (indentUnit ++ "\x7d") (Sentinel.event b.event)

structure StateDef.WellFormed (b : StateDef) : Prop where
  name : isIdentifier b.name.text = true
  events : (b.handlers.map (·.event)).Nodup
  handlers : ∀ h ∈ b.handlers, h.WellFormed
  ending : b.ending.Closes "\x7d" (Sentinel.state b.name)

structure Script.WellFormed (s : Script) : Prop where
  functionNames : (s.functions.map (·.name)).Nodup
  stateNames : (s.states.map (·.name)).Nodup
  functions : ∀ b ∈ s.functions, b.WellFormed
  states : ∀ b ∈ s.states, b.WellFormed

theorem Script.wellFormed_empty : empty.WellFormed :=
  ⟨List.nodup_nil, List.nodup_nil, by simp [empty], by simp [empty]⟩

theorem HeaderSpelledBy.params {name line : Text} {ps : List Param}
    (h : HeaderSpelledBy name ps line) : ∀ p ∈ ps, isIdentifier p.ident = true := by
  obtain ⟨inner, tail, hps, _, _⟩ := h
  exact Param.isIdentifier_of_listingSpelledBy hps

theorem FunctionDef.SpelledBy.wellFormed {b : FunctionDef} {ls : List Text} (h : b.SpelledBy ls)
    (hn : ∀ l ∈ ls, '\n' ∉ l) : b.WellFormed := by
  obtain ⟨hi, hbody, header, closing, hh, hc, he, rfl⟩ := h
  refine ⟨hi, hh.params, fun l hl => ⟨hbody l hl, hn l (by simp [hl])⟩, ?_⟩
  rw [he]
  exact Ending.closes_ofLine hc (hn closing (by simp))

theorem Handler.SpelledBy.wellFormed {b : Handler} {ls : List Text} (h : b.SpelledBy ls)
    (hn : ∀ l ∈ ls, '\n' ∉ l) : b.WellFormed := by
  obtain ⟨ht, hbody, header, closing, hh, hc, he, rfl⟩ := h
  refine ⟨hh.params, ht, fun l hl => ⟨hbody l hl, hn l (by simp [hl])⟩, ?_⟩
  rw [he]
  exact Ending.closes_ofLine hc (hn closing (by simp))

theorem Spaced.forall {α : Type} {Spells : α → List Text → Prop} {P : α → Prop} {as : List α}
    {ls : List Text}
    (h : Spaced Spells as ls) (hitem : ∀ a block, Spells a block → (∀ l ∈ block, '\n' ∉ l) → P a) :
    (∀ l ∈ ls, '\n' ∉ l) → ∀ a ∈ as, P a := by
  induction h with
  | nil => simp
  | blank _ _ ih => exact fun hq => ih fun l hl => hq l (List.mem_cons_of_mem _ hl)
  | item ha _ ih =>
    intro hq a hm
    cases hm with
    | head => exact hitem _ _ ha fun l hl => hq l (List.mem_append_left _ hl)
    | tail _ hm => exact ih (fun l hl => hq l (List.mem_append_right _ hl)) a hm

theorem StateDef.SpelledBy.wellFormed {b : StateDef} {ls : List Text} (h : b.SpelledBy ls)
    (hn : ∀ l ∈ ls, '\n' ∉ l) : b.WellFormed := by
  obtain ⟨hi, hnodup, inner, closing, hinner, hc, he, rfl⟩ := h
  refine ⟨hi, hnodup, ?_, ?_⟩
  · exact hinner.forall (fun _ _ hb => hb.wellFormed) fun l hl => hn l (by simp [hl])
  · rw [he]
    exact Ending.closes_ofLine hc (hn closing (by simp))

theorem Script.SpelledBy.wellFormed {s : Script} {ls : List Text} (h : s.SpelledBy ls)
    (hn : ∀ l ∈ ls, '\n' ∉ l) : s.WellFormed := by
  obtain ⟨hf, hs, front, back, h1, h2, rfl⟩ := h
  refine ⟨hf, hs, ?_, ?_⟩
  · exact h1.forall (fun _ _ hb => hb.wellFormed) fun l hl => hn l (List.mem_append_left _ hl)
  · exact h2.forall (fun _ _ hb => hb.wellFormed) fun l hl => hn l (List.mem_append_right _ hl)

theorem Script.wellFormed_of_ofText {t : Text} {s : Script} (h : Script.ofText t = .ok s) :
    s.WellFormed :=
  (Script.ofText_eq_ok_iff.mp h).wellFormed fun _ hl => Text.newline_not_mem_of_mem_lines hl

/-! ## Well-formed scripts are read back -/

theorem FunctionDef.WellFormed.spelledBy {b : FunctionDef} (h : b.WellFormed) :
    ∃ block, b.SpelledBy block ∧ b.lines = block ++ [[]] := by
  refine ⟨b.header :: opening :: (b.body ++ [b.ending.line (Sentinel.function b.name)]), ?_, by simp [lines]⟩
  refine ⟨h.name, fun l hl => (h.body l hl).1, _, _, headerSpelledBy_header h.params, ?_, ?_, rfl⟩
  · exact Ending.startsWith_line rfl h.ending
  · exact (Ending.ofLine_line h.ending).symm

theorem Handler.WellFormed.spelledBy {b : Handler} (h : b.WellFormed) :
    ∃ block, b.SpelledBy block ∧ b.lines = block ++ [[]] := by
  refine ⟨b.header :: (indentUnit ++ opening) :: (b.body ++ [b.ending.line (Sentinel.event b.event)]), ?_,
    by simp [lines]⟩
  refine ⟨h.types, fun l hl => (h.body l hl).1, _, _, headerSpelledBy_header h.params, ?_, ?_, rfl⟩
  · exact Ending.startsWith_line rfl h.ending
  · exact (Ending.ofLine_line h.ending).symm

theorem StateDef.WellFormed.spelledBy {b : StateDef} (h : b.WellFormed) :
    ∃ block, b.SpelledBy block ∧ b.lines = block ++ [[]] := by
  refine ⟨b.name.label :: opening :: (b.handlers.flatMap Handler.lines ++ [b.ending.line (Sentinel.state b.name)]),
    ?_, by simp [lines]⟩
  refine ⟨h.name, h.events, _, _, Spaced.of_blocks fun a ha => (h.handlers a ha).spelledBy, ?_, ?_, rfl⟩
  · exact Ending.startsWith_line rfl h.ending
  · exact (Ending.ofLine_line h.ending).symm

theorem Script.WellFormed.spelledBy {s : Script} (h : s.WellFormed) : s.SpelledBy s.lines :=
  ⟨h.functionNames, h.stateNames, _, _, Spaced.of_blocks fun b hb => (h.functions b hb).spelledBy,
    Spaced.of_blocks fun b hb => (h.states b hb).spelledBy, rfl⟩

theorem newline_not_mem_label {n : StateName} (h : isIdentifier n.text = true) :
    '\n' ∉ n.label := fun hm => by
  rcases StateName.mem_label h hm with h | h
  · cases h
  · cases h

theorem newline_not_mem_header {name : Text} {ps : List Param} (hn : isIdentifier name = true)
    (hp : ∀ p ∈ ps, isIdentifier p.ident = true) : '\n' ∉ Param.header name ps := fun hm => by
  rcases Param.mem_header hn hp hm with h | h
  · cases h
  · revert h; decide

theorem newline_not_mem_quoted {before name after : Text} (hb : '\n' ∉ before) (hn : '\n' ∉ name)
    (ha : '\n' ∉ after) : '\n' ∉ before ++ name ++ after := by
  simp only [List.mem_append, not_or]
  exact ⟨⟨hb, hn⟩, ha⟩

theorem FunctionDef.WellFormed.newline_not_mem {b : FunctionDef} (h : b.WellFormed) :
    ∀ l ∈ b.lines, '\n' ∉ l := by
  intro l hl
  simp only [lines, List.mem_append, List.mem_cons, List.not_mem_nil, or_false] at hl
  rcases hl with ((rfl | rfl) | hl) | rfl | rfl
  · exact newline_not_mem_header h.name h.params
  · decide
  · exact (h.body l hl).2
  · refine Ending.newline_not_mem_line ?_ h.ending
    exact newline_not_mem_quoted (by decide) (not_mem_of_isIdentifier h.name (by decide)) (by decide)
  · decide

theorem Handler.WellFormed.newline_not_mem {b : Handler} (h : b.WellFormed) :
    ∀ l ∈ b.lines, '\n' ∉ l := by
  intro l hl
  simp only [lines, List.mem_append, List.mem_cons, List.not_mem_nil, or_false] at hl
  rcases hl with ((rfl | rfl) | hl) | rfl | rfl
  · rw [header, List.mem_append, not_or]
    exact ⟨by decide, newline_not_mem_header b.event.isIdentifier_name h.params⟩
  · decide
  · exact (h.body l hl).2
  · refine Ending.newline_not_mem_line ?_ h.ending
    exact newline_not_mem_quoted (by decide) (not_mem_of_isIdentifier b.event.isIdentifier_name (by decide))
      (by decide)
  · decide

theorem StateDef.WellFormed.newline_not_mem {b : StateDef} (h : b.WellFormed) :
    ∀ l ∈ b.lines, '\n' ∉ l := by
  intro l hl
  simp only [lines, List.mem_append, List.mem_cons, List.not_mem_nil, or_false, List.mem_flatMap] at hl
  rcases hl with ((rfl | rfl) | ⟨a, ha, hl⟩) | rfl | rfl
  · exact newline_not_mem_label h.name
  · decide
  · exact (h.handlers a ha).newline_not_mem l hl
  · refine Ending.newline_not_mem_line ?_ h.ending
    exact newline_not_mem_quoted (by decide) (newline_not_mem_label h.name) (by decide)
  · decide

theorem Script.WellFormed.newline_not_mem {s : Script} (h : s.WellFormed) :
    ∀ l ∈ s.lines, '\n' ∉ l := by
  intro l hl
  simp only [lines, List.mem_append, List.mem_flatMap] at hl
  rcases hl with ⟨b, hb, hl⟩ | ⟨b, hb, hl⟩
  · exact (h.functions b hb).newline_not_mem l hl
  · exact (h.states b hb).newline_not_mem l hl

/-- The text of a script without blocks is read as one blank line. -/
theorem Script.WellFormed.spelledBy_text {s : Script} (h : s.WellFormed) :
    s.SpelledBy (Text.lines s.text) := by
  cases hl : s.lines with
  | nil =>
    have blank := (hl ▸ h.spelledBy).blank (rfl : Text.isBlank [] = true)
    rwa [Script.text, hl]
  | cons l ls =>
    rw [Script.text, Text.lines_unlines h.newline_not_mem (by simp [hl])]
    exact h.spelledBy

theorem Script.ofText_text {s : Script} (h : s.WellFormed) : Script.ofText s.text = .ok s :=
  Script.ofText_eq_ok_iff.mpr h.spelledBy_text

end LslScript
