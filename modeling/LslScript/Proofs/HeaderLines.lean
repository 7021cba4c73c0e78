import LslScript.Proofs.Edits

/-!
# Lines that head blocks

A line heads a state when it is the label of a name, and a function or an event when it has the shape of
its header; the shapes are said here without the functions that cut lines. No line has two of them, and a
header that is written is cut into the name and the parameters that it was written from.
-/

namespace LslScript

namespace Header

def Fits (name inner line : Text) : Prop :=
  '\n' ∉ inner ∧ ∃ tail : Text, tail.isBlank = true ∧ line = name ++ '(' :: (inner ++ ')' :: tail)

def FitsFunction (name inner line : Text) : Prop := isIdentifier name = true ∧ Fits name inner line

/-- An event's name has only small letters and underscores, and its header is indented once. -/
def FitsEvent (name inner line : Text) : Prop :=
  (name ≠ [] ∧ ∀ c ∈ name, isEventNameChar c = true) ∧
    ∃ header, Fits name inner header ∧ line = indentUnit ++ header

variable {name inner line : Text}

theorem function?_iff_fits (h : '\n' ∉ line) :
    function? line = some (name, inner) ↔ FitsFunction name inner line := by
  rw [function?_eq_some_iff]
  constructor
  · rintro ⟨hi, tail, hb, rfl⟩
    exact ⟨hi, fun hm => h (by simp [hm]), tail, hb, rfl⟩
  · rintro ⟨hi, _, cut⟩
    exact ⟨hi, cut⟩

theorem event?_iff_fits (h : '\n' ∉ line) :
    event? line = some (name, inner) ↔ FitsEvent name inner line := by
  rw [event?_eq_some_iff]
  constructor
  · rintro ⟨hn, tail, hb, rfl⟩
    exact ⟨hn, _, ⟨fun hm => h (by simp [hm]), tail, hb, rfl⟩, rfl⟩
  · rintro ⟨hn, _, ⟨_, tail, hb, rfl⟩, rfl⟩
    exact ⟨hn, tail, hb, rfl⟩

theorem function?_eq_none_of_label {n : StateName} (h : StateName.ofLabel? line = some n) :
    function? line = none := by
  cases hf : function? line with
  | none => rfl
  | some cut =>
    -- what has parentheses is no label, whatever the name in front of them
    obtain ⟨_, tail, _, rfl⟩ := function?_eq_some_iff.mp hf
    rw [ofLabel?_header] at h
    cases h

end Header

/-! ## Written headers -/

theorem StateName.ofText_text {n : StateName} (h : isIdentifier n.text = true) : ofText n.text = .ok n := by
  have whole := Text.trim_of_isIdentifier h
  have solid : n.text.any isBlankChar = false := List.any_eq_false.mpr fun c hc => by
    simp [solid_of_isIdentifier h c hc]
  have nonempty : n.text.isEmpty = false := by simpa using ne_nil_of_isIdentifier h
  simp [ofText, whole, solid, nonempty, h]

theorem StateName.isIdentifier_iff_ofText {n : StateName} :
    isIdentifier n.text = true ↔ ∃ raw, ofText raw = .ok n :=
  ⟨fun h => ⟨n.text, ofText_text h⟩, fun ⟨_, h⟩ => isIdentifier_of_ofText h⟩

theorem FunctionDef.function?_header (b : FunctionDef) (h : isIdentifier b.name = true) :
    Header.function? b.header = some (b.name, Param.listing b.params) :=
  Header.function?_eq_some_iff.mpr ⟨h, [], rfl, Param.header_eq ..⟩

theorem FunctionDef.ofLabel?_header (b : FunctionDef) : StateName.ofLabel? b.header = none := by
  rw [header, Param.header_eq]
  exact LslScript.ofLabel?_header

theorem Handler.event?_header (b : Handler) :
    Header.event? b.header = some (b.event.name, Param.listing b.params) := by
  rw [header, Param.header_eq]
  exact b.event.event?_header _ rfl

theorem Handler.newline_not_mem_header {b : Handler} (h : ∀ p ∈ b.params, isIdentifier p.ident = true) :
    '\n' ∉ b.header := by
  have unit : '\n' ∉ indentUnit := by decide
  have rest := LslScript.newline_not_mem_header b.event.isIdentifier_name h
  simp [header, unit, rest]

/-- Labels are read as the names that they were written for and nothing else is, no label is cut like the
header of a function, lines are cut in the only way that the shapes of headers allow, and the parts of a
written header are the name and the list of parameters in it. -/
theorem header_lines_unambiguous :
    (∀ line n, StateName.ofLabel? line = some n ↔
      (∃ raw, StateName.ofText raw = .ok n) ∧ n.label = line) ∧
    (∀ line, StateName.ofLabel? line = none ∨ Header.function? line = none) ∧
    (∀ line name inner, '\n' ∉ line →
      (Header.function? line = some (name, inner) ↔ Header.FitsFunction name inner line) ∧
      (Header.event? line = some (name, inner) ↔ Header.FitsEvent name inner line)) ∧
    (∀ b : FunctionDef, isIdentifier b.name = true → (∀ p ∈ b.params, isIdentifier p.ident = true) →
      '\n' ∉ b.header ∧ Header.function? b.header = some (b.name, Param.listing b.params) ∧
        StateName.ofLabel? b.header = none) ∧
    ∀ b : Handler, (∀ p ∈ b.params, isIdentifier p.ident = true) →
      '\n' ∉ b.header ∧ Header.event? b.header = some (b.event.name, Param.listing b.params) := by
  refine ⟨fun line n => ?_, fun line => ?_, fun line name inner h => ?_, fun b hn hp => ?_, fun b hp => ?_⟩
  · rw [StateName.ofLabel?_eq_some_iff, StateName.isIdentifier_iff_ofText, eq_comm (a := line)]
  · cases hl : StateName.ofLabel? line with
    | none => exact Or.inl rfl
    | some n => exact Or.inr (Header.function?_eq_none_of_label hl)
  · exact ⟨Header.function?_iff_fits h, Header.event?_iff_fits h⟩
  · exact ⟨newline_not_mem_header hn hp, b.function?_header hn, b.ofLabel?_header⟩
  · exact ⟨Handler.newline_not_mem_header hp, b.event?_header⟩

/-- A function may be named like the first state, and states and parameters like other words of a script. -/
theorem header_lines_unambiguous_keywords :
    let name : StateName := ⟨"state"⟩
    let f : FunctionDef := ⟨"default", [⟨.key, "state"⟩], [], .sentinel⟩
    let b : Handler := ⟨.touchStart, [⟨.integer, "timer"⟩], [], .sentinel⟩
    (StateName.ofText " state " = .ok name ∧ StateName.ofLabel? "state state" = some name) ∧
      (isIdentifier f.name = true ∧ (∀ p ∈ f.params, isIdentifier p.ident = true) ∧
        f.header = "default(key state)".toList ∧ '\n' ∉ f.header ∧
        Header.function? f.header = some (f.name, "key state".toList) ∧
        Header.FitsFunction f.name "key state" f.header ∧ StateName.ofLabel? f.header = none) ∧
      (∀ p ∈ b.params, isIdentifier p.ident = true) ∧
        b.header = "    touch_start(integer timer)".toList ∧ '\n' ∉ b.header ∧
        Header.event? b.header = some ("touch_start".toList, "integer timer".toList) := by
  intro name f b
  obtain ⟨labels, -, shapes, functions, events⟩ := header_lines_unambiguous
  have read : StateName.ofText " state " = .ok name := by decide +kernel
  have idents : ∀ p ∈ f.params, isIdentifier p.ident = true := by decide
  have idents' : ∀ p ∈ b.params, isIdentifier p.ident = true := by decide
  obtain ⟨line, cut, noLabel⟩ := functions f (by decide) idents
  obtain ⟨line', cut'⟩ := events b idents'
  exact ⟨⟨read, (labels _ name).mpr ⟨⟨_, read⟩, rfl⟩⟩,
    ⟨by decide, idents, rfl, line, cut, (shapes _ _ _ line).1.mp cut, noLabel⟩, idents', rfl, line', cut'⟩

end LslScript
