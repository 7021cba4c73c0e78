import LslScript.Proofs.Edits

/-!
# Nothing is lost by reading

Which texts are read as a document, and what becomes of their lines: blocks and bodies stay, headers
are spelled anew, and blank lines around blocks give way to one behind each (`ofDocument_layout`).
-/

namespace LslScript

def respell (line : Text) : Text :=
  match Header.function? line, Header.event? line with
  | some (name, inner), _ =>
    match Param.ofListing inner with
    | .ok ps => Param.header name ps
    | .error _ => line
  | none, some (name, inner) =>
    match Param.ofListing inner with
    | .ok ps => indentUnit ++ Param.header name ps
    | .error _ => line
  | none, none => line

/-- The lines that are not blank, with headers spelled anew. -/
def content (ls : List Text) : List Text := (ls.filter (!Text.isBlank ·)).map respell

theorem content_append (ls ms : List Text) : content (ls ++ ms) = content ls ++ content ms := by
  simp [content]

theorem content_cons (l : Text) (ls : List Text) : content (l :: ls) = content [l] ++ content ls :=
  content_append [l] ls

theorem content_blank {l : Text} (h : l.isBlank = true) : content [l] = [] := by
  simp [content, h]

theorem content_solid {l : Text} (h : l.isBlank = false) : content [l] = [respell l] := by
  simp [content, h]

theorem respell_header {name line : Text} {ps : List Param} (hi : isIdentifier name = true)
    (h : HeaderSpelledBy name ps line) : respell line = Param.header name ps := by
  obtain ⟨inner, tail, hps, hb, rfl⟩ := h
  have hf : Header.function? (name ++ '(' :: (inner ++ ')' :: tail)) = some (name, inner) :=
    Header.function?_eq_some_iff.mpr ⟨hi, tail, hb, rfl⟩
  simp only [respell, hf, Param.ofListing_eq_ok_iff.mpr hps]

theorem respell_eventHeader {e : Event} {header : Text} {ps : List Param}
    (h : HeaderSpelledBy e.name ps header) :
    respell (indentUnit ++ header) = indentUnit ++ Param.header e.name ps := by
  obtain ⟨inner, tail, hps, hb, rfl⟩ := h
  have hf : Header.function? (indentUnit ++ (e.name ++ '(' :: (inner ++ ')' :: tail))) = none := rfl
  have he : Header.event? (indentUnit ++ (e.name ++ '(' :: (inner ++ ')' :: tail))) = some (e.name, inner) :=
    e.event?_header inner hb
  simp only [respell, hf, he, Param.ofListing_eq_ok_iff.mpr hps]

theorem content_header {name line : Text} {ps : List Param} (hi : isIdentifier name = true)
    (h : HeaderSpelledBy name ps line) : content [line] = content [Param.header name ps] := by
  have solid : ∀ {l : Text}, HeaderSpelledBy name ps l → l.isBlank = false := by
    intro l ⟨inner, tail, _, _, hl⟩
    rw [hl, isBlank_name_append hi]
  have written : HeaderSpelledBy name ps (Param.header name ps) := headerSpelledBy_header h.params
  rw [content_solid (solid h), content_solid (solid written), respell_header hi h, respell_header hi written]

theorem content_eventHeader {e : Event} {header : Text} {ps : List Param}
    (h : HeaderSpelledBy e.name ps header) :
    content [indentUnit ++ header] = content [indentUnit ++ Param.header e.name ps] := by
  have written : HeaderSpelledBy e.name ps (Param.header e.name ps) := headerSpelledBy_header h.params
  rw [content_solid (Reading.isBlank_eventHeader h), content_solid (Reading.isBlank_eventHeader written),
    respell_eventHeader h, respell_eventHeader written]

/-! ## Blocks -/

theorem content_block {head head' : Text} {inner inner' : List Text} (closing : Text)
    (hh : content [head] = content [head']) (hi : content inner = content inner') :
    content (head :: (inner ++ [closing])) = content (head' :: (inner' ++ [closing, []])) := by
  rw [content_cons head, content_cons head', content_append, content_append, hh, hi,
    content_cons closing [[]], content_blank (rfl : Text.isBlank [] = true), List.append_nil]

theorem FunctionDef.SpelledBy.content_eq {b : FunctionDef} {ls : List Text} (h : b.SpelledBy ls) :
    content ls = content b.lines := by
  obtain ⟨hi, _, header, closing, hh, _, he, rfl⟩ := h
  have block := content_block closing (content_header hi hh) (rfl : content (opening :: b.body) = _)
  simpa [lines, FunctionDef.header, he, Ending.line_ofLine] using block

theorem Handler.SpelledBy.content_eq {b : Handler} {ls : List Text} (h : b.SpelledBy ls) :
    content ls = content b.lines := by
  obtain ⟨_, _, header, closing, hh, _, he, rfl⟩ := h
  have block := content_block closing (content_eventHeader hh)
    (rfl : content ((indentUnit ++ opening) :: b.body) = _)
  simpa [lines, Handler.header, he, Ending.line_ofLine] using block

theorem Spaced.content_eq {α : Type} {Spells : α → List Text → Prop} {f : α → List Text}
    (hitem : ∀ a block, Spells a block → content block = content (f a)) {as : List α} {ls : List Text}
    (h : Spaced Spells as ls) : content ls = content (as.flatMap f) := by
  induction h with
  | nil => rfl
  | blank hl _ ih => rw [content_cons, content_blank hl, List.nil_append, ih]
  | item ha _ ih => rw [content_append, hitem _ _ ha, ih, List.flatMap_cons, content_append]

theorem StateDef.SpelledBy.content_eq {b : StateDef} {ls : List Text} (h : b.SpelledBy ls) :
    content ls = content b.lines := by
  obtain ⟨_, _, inner, closing, hinner, _, he, rfl⟩ := h
  -- the opening brace goes with the handlers: `content_block` knows one head and one closing line
  have handlers : content (opening :: inner) = content (opening :: b.handlers.flatMap Handler.lines) := by
    rw [content_cons opening inner, content_cons opening (b.handlers.flatMap Handler.lines),
      hinner.content_eq fun _ _ hb => hb.content_eq]
  have block := content_block closing (rfl : content [b.name.label] = _) handlers
  simpa [lines, he, Ending.line_ofLine] using block

theorem Script.SpelledBy.content_eq {s : Script} {ls : List Text} (h : s.SpelledBy ls) :
    content ls = content s.lines := by
  obtain ⟨_, _, front, back, h1, h2, rfl⟩ := h
  rw [lines, content_append, content_append, h1.content_eq fun _ _ hb => hb.content_eq,
    h2.content_eq fun _ _ hb => hb.content_eq]

/-- A text is read exactly when its lines spell a script. What is read is spelled by these lines, and
the document has the same content. -/
theorem ofDocument_layout (t : Text) :
    ((∃ d, Draft.ofDocument t = .ok d) ↔ ∃ s : Script, s.SpelledBy (Text.lines t)) ∧
      ∀ d, Draft.ofDocument t = .ok d → d.script.SpelledBy (Text.lines t) ∧
        d.document = Text.unlines d.script.lines ∧
        content (Text.lines d.document) = content (Text.lines t) := by
  refine ⟨⟨?_, ?_⟩, ?_⟩
  · intro ⟨d, hd⟩
    exact ⟨d.script, Script.ofText_eq_ok_iff.mp (Draft.ofDocument_eq_ok_iff.mp hd).1⟩
  · intro ⟨s, hs⟩
    exact ⟨⟨.ofScript s, s⟩, Draft.ofDocument_eq_ok_iff.mpr ⟨Script.ofText_eq_ok_iff.mpr hs, rfl⟩⟩
  · intro d hd
    have read := (Draft.ofDocument_eq_ok_iff.mp hd).1
    have spelled := Script.ofText_eq_ok_iff.mp read
    have written : d.script.SpelledBy (Text.lines d.document) :=
      (Script.wellFormed_of_ofText read).spelledBy_text
    exact ⟨spelled, rfl, by rw [written.content_eq, spelled.content_eq]⟩

/-- Blank lines, blank ends of headers and the room between parameters are what is not kept. -/
theorem ofDocument_layout_loose :
    let loose : Text := " \nf( integer  a ,string b ) \n\x7b\n\n  a;\n\x7d // f\n\n" ++
      "default\n\x7b\n    timer( )\n    \x7b\n    \x7d\n\x7d".toList
    let tidy : Text := "f(integer a, string b)\n\x7b\n\n  a;\n\x7d // f\n\n" ++
      "default\n\x7b\n    timer()\n    \x7b\n    \x7d\n\n\x7d\n\n".toList
    ∃ d, Draft.ofDocument loose = .ok d ∧ d.document = tidy ∧ d.script.SpelledBy (Text.lines loose) ∧
      content (Text.lines tidy) = content (Text.lines loose) := by
  intro loose tidy
  have read : (Draft.ofDocument loose).toOption.map Draft.document = some tidy := by decide +kernel
  obtain ⟨d, hd, hdoc⟩ := Option.map_eq_some_iff.mp read
  have ok : Draft.ofDocument loose = .ok d := by
    cases h : Draft.ofDocument loose with
    | error fault => rw [h] at hd; cases hd
    | ok d' => rw [h] at hd; exact congrArg Except.ok (Option.some.inj hd)
  obtain ⟨spelled, _, same⟩ := (ofDocument_layout loose).2 d ok
  rw [hdoc] at same
  exact ⟨d, ok, hdoc, spelled, same⟩

end LslScript
