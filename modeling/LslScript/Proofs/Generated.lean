import LslScript.Proofs.Sentinels
import LslScript.Proofs.Reachable

/-!
# Structure of generated text

A script is generated if its sentinels close all blocks and no line in a body has a delimiter. Steps keep
scripts generated as long as they load no document but the draft's own. In the text of such a script the
braces are those of the layout: they are nested at most two deep and every sentinel stands once where it
belongs (`Draft.generated_structure`).
-/

namespace LslScript

structure FunctionDef.Generated (b : FunctionDef) : Prop where
  ending : b.ending = .sentinel
  body : ∀ l ∈ b.body, Text.Plain l

structure Handler.Generated (b : Handler) : Prop where
  ending : b.ending = .sentinel
  body : ∀ l ∈ b.body, Text.Plain l

structure StateDef.Generated (b : StateDef) : Prop where
  ending : b.ending = .sentinel
  handlers : ∀ h ∈ b.handlers, h.Generated

structure Script.Generated (s : Script) : Prop where
  functions : ∀ b ∈ s.functions, b.Generated
  states : ∀ b ∈ s.states, b.Generated

theorem Script.generated_empty : empty.Generated := ⟨by simp [empty], by simp [empty]⟩

theorem FunctionDef.generated_new (name : Text) (ps : List Param) :
    FunctionDef.Generated ⟨name, ps, [], .sentinel⟩ := ⟨rfl, by simp⟩

theorem Handler.generated_new (e : Event) (ps : List Param) :
    Handler.Generated ⟨e, ps, [], .sentinel⟩ := ⟨rfl, by simp⟩

theorem forall_mem_append_of {α : Type} {P : α → Prop} {as bs : List α} (ha : ∀ a ∈ as, P a)
    (hb : ∀ b ∈ bs, P b) : ∀ a ∈ as ++ bs, P a :=
  List.forall_mem_append.mpr ⟨ha, hb⟩

theorem forall_mem_modifyFirst {α : Type} {P : α → Prop} {p : α → Bool} {f : α → α} {as : List α}
    (h : ∀ a ∈ as, P a) (hf : ∀ a, P a → P (f a)) : ∀ a ∈ modifyFirst p f as, P a := by
  intro a ha
  rcases mem_modifyFirst ha with ha | ⟨b, hb, _, rfl⟩
  · exact h a ha
  · exact hf b (h b hb)

namespace Draft

/-- What a step does to a generated script, if it loads no other document. -/
theorem Change.generated {loads : Text → Prop} {d d' : Draft} (hw : d.WellFormed)
    (hg : d.script.Generated) (hl : ∀ t, loads t → t = d.document) (hc : d.Change loads d') :
    d'.script.Generated := by
  cases hc with
  | nothing => exact hg
  | declare name => exact hg
  | @addState name e ps =>
    refine ⟨hg.functions, forall_mem_append_of hg.states ?_⟩
    rw [List.forall_mem_singleton]
    exact ⟨rfl, List.forall_mem_singleton.mpr (Handler.generated_new e ps)⟩
  | @addHandler name e ps =>
    refine ⟨hg.functions, forall_mem_modifyFirst hg.states fun state hs => ⟨hs.ending, ?_⟩⟩
    exact forall_mem_append_of hs.handlers (List.forall_mem_singleton.mpr (Handler.generated_new e ps))
  | addEventLines name e hls =>
    refine ⟨hg.functions, forall_mem_modifyFirst hg.states fun state hs => ⟨hs.ending, ?_⟩⟩
    refine forall_mem_modifyFirst hs.handlers fun b hb => ⟨hb.ending, ?_⟩
    exact forall_mem_append_of hb.body fun l hl => (hls l hl).2
  | @addFunction name ps =>
    exact ⟨List.forall_mem_cons.mpr ⟨FunctionDef.generated_new name ps, hg.functions⟩, hg.states⟩
  | addFunctionLines name hls =>
    refine ⟨forall_mem_modifyFirst hg.functions fun b hb => ⟨hb.ending, ?_⟩, hg.states⟩
    exact forall_mem_append_of hb.body fun l hl => (hls l hl).2
  | load ht hs =>
    -- the draft's own document is read back as the script that it was
    rw [hl _ ht, document, Script.ofText_text hw.script] at hs
    cases hs
    exact hg
  | reset => exact Script.generated_empty

/-- Every document that is loaded is the one of the draft it is loaded into. -/
def LoadsOwn (d : Draft) : List Step → Prop
  | [] => True
  | step :: steps => (∀ t, step = .setDocument t → t = d.document) ∧ LoadsOwn (step.run d).draft steps

theorem generated_after {d : Draft} (hw : d.WellFormed) (hg : d.script.Generated) {steps : List Step}
    (hl : d.LoadsOwn steps) : (d.after steps).script.Generated := by
  induction steps generalizing d with
  | nil => exact hg
  | cons step steps ih =>
    have change := step.change d
    exact ih (change.wellFormed hw) (change.generated hw hg hl.1) hl.2

end Draft

/-! ## Lines with delimiters -/

def Script.sentinels (s : Script) : List Text :=
  s.functions.map (Sentinel.function ·.name) ++
    s.states.flatMap fun b => b.handlers.map (Sentinel.event ·.event) ++ [Sentinel.state b.name]

theorem Script.mem_sentinels {s : Script} {l : Text} : l ∈ s.sentinels ↔
    (∃ b ∈ s.functions, l = Sentinel.function b.name) ∨
      ∃ b ∈ s.states, (∃ a ∈ b.handlers, l = Sentinel.event a.event) ∨ l = Sentinel.state b.name := by
  simp [sentinels, eq_comm]

namespace FunctionDef.Generated
variable {b : FunctionDef} {l : Text} (h : b.Generated)
include h

theorem closing_eq : b.closing = Sentinel.function b.name := by
  rw [closing, h.ending]
  rfl

theorem opened_cases (hw : b.WellFormed) (hl : l ∈ b.opened) : Text.Plain l ∨ l = opening := by
  simp only [opened, List.mem_cons] at hl
  rcases hl with rfl | rfl | hl
  · exact Or.inl (plain_header hw.name hw.params)
  · exact Or.inr rfl
  · exact Or.inl (h.body l hl)

theorem line_cases (hw : b.WellFormed) (hl : l ∈ b.lines) :
    Text.Plain l ∨ l = opening ∨ l = Sentinel.function b.name := by
  rw [lines_eq, h.closing_eq, List.mem_append, List.mem_pair] at hl
  rcases hl with hl | rfl | rfl
  · exact (h.opened_cases hw hl).imp_right Or.inl
  · exact Or.inr (Or.inr rfl)
  · exact Or.inl Text.plain_nil

theorem not_mem_opened (hw : b.WellFormed) (hc : '}' ∈ l) : l ∉ b.opened := by
  intro hl
  rcases h.opened_cases hw hl with hp | rfl
  · exact hp .closeBrace hc
  · exact brace_not_mem_opening hc

end FunctionDef.Generated

namespace Handler.Generated
variable {b : Handler} {l : Text} (h : b.Generated)
include h

theorem closing_eq : b.closing = Sentinel.event b.event := by
  rw [closing, h.ending]
  rfl

theorem opened_cases (hw : b.WellFormed) (hl : l ∈ b.opened) :
    Text.Plain l ∨ l = indentUnit ++ opening := by
  simp only [opened, List.mem_cons] at hl
  rcases hl with rfl | rfl | hl
  · exact Or.inl (plain_handler_header hw)
  · exact Or.inr rfl
  · exact Or.inl (h.body l hl)

theorem line_cases (hw : b.WellFormed) (hl : l ∈ b.lines) :
    Text.Plain l ∨ l = indentUnit ++ opening ∨ l = Sentinel.event b.event := by
  rw [lines_eq, h.closing_eq, List.mem_append, List.mem_pair] at hl
  rcases hl with hl | rfl | rfl
  · exact (h.opened_cases hw hl).imp_right Or.inl
  · exact Or.inr (Or.inr rfl)
  · exact Or.inl Text.plain_nil

theorem not_mem_opened (hw : b.WellFormed) (hc : '}' ∈ l) : l ∉ b.opened := by
  intro hl
  rcases h.opened_cases hw hl with hp | rfl
  · exact hp .closeBrace hc
  · exact brace_not_mem_event_opening hc

end Handler.Generated

namespace StateDef.Generated
variable {b : StateDef} {l : Text} (h : b.Generated)
include h

theorem closing_eq : b.closing = Sentinel.state b.name := by
  rw [closing, h.ending]
  rfl

theorem opened_cases (hw : b.WellFormed) (hl : l ∈ b.opened) :
    Text.Plain l ∨ (l = opening ∨ l = indentUnit ++ opening) ∨
      ∃ a ∈ b.handlers, l = Sentinel.event a.event := by
  simp only [opened, openedWith, List.mem_cons, List.mem_flatMap] at hl
  rcases hl with rfl | rfl | ⟨a, ha, hl⟩
  · exact Or.inl (plain_label hw.name)
  · exact Or.inr (Or.inl (Or.inl rfl))
  · rcases (h.handlers a ha).line_cases (hw.handlers a ha) hl with hp | ho | hs
    · exact Or.inl hp
    · exact Or.inr (Or.inl (Or.inr ho))
    · exact Or.inr (Or.inr ⟨a, ha, hs⟩)

theorem line_cases (hw : b.WellFormed) (hl : l ∈ b.lines) :
    Text.Plain l ∨ (l = opening ∨ l = indentUnit ++ opening) ∨
      (∃ a ∈ b.handlers, l = Sentinel.event a.event) ∨ l = Sentinel.state b.name := by
  rw [lines_eq, h.closing_eq, List.mem_append, List.mem_pair] at hl
  rcases hl with hl | rfl | rfl
  · exact (h.opened_cases hw hl).imp_right (Or.imp_right Or.inl)
  · exact Or.inr (Or.inr (Or.inr rfl))
  · exact Or.inl Text.plain_nil

theorem not_mem_opened (hw : b.WellFormed) (hc : '}' ∈ l) (he : ∀ e, l ≠ Sentinel.event e) :
    l ∉ b.opened := by
  intro hl
  rcases h.opened_cases hw hl with hp | (rfl | rfl) | ⟨a, _, ha⟩
  · exact hp .closeBrace hc
  · exact brace_not_mem_opening hc
  · exact brace_not_mem_event_opening hc
  · exact he a.event ha

end StateDef.Generated

/-- A sentinel has a closing brace and no other delimiter. -/
theorem Script.WellFormed.sentinel_cases {s : Script} (hw : s.WellFormed) {l : Text}
    (hl : l ∈ s.sentinels) : ∃ front back, l = front ++ '}' :: back ∧ Text.Plain front ∧ Text.Plain back := by
  rcases mem_sentinels.mp hl with ⟨b, hb, rfl⟩ | ⟨b, hb, ⟨a, ha, rfl⟩ | rfl⟩
  · exact ⟨[], _, Sentinel.function_eq b.name, Text.plain_nil,
      Sentinel.plain_function_tail (hw.functions b hb).name⟩
  · exact ⟨_, _, Sentinel.event_eq a.event, plain_indentUnit, Sentinel.plain_event_tail a.event⟩
  · exact ⟨[], _, Sentinel.state_eq b.name, Text.plain_nil, Sentinel.plain_state_tail (hw.states b hb).name⟩

theorem Script.WellFormed.not_mem_sentinel {s : Script} (hw : s.WellFormed) {l : Text}
    (hl : l ∈ s.sentinels) {c : Delimiter} (hc : c ≠ .closeBrace) : c.char ∉ l := by
  obtain ⟨front, back, rfl, hf, hb⟩ := hw.sentinel_cases hl
  rw [List.mem_append, List.mem_cons, not_or, not_or]
  exact ⟨hf c, by cases c <;> simp_all [Delimiter.char], hb c⟩

namespace Script.Generated
variable {s : Script} {l : Text} (h : s.Generated) (hw : s.WellFormed)
include h hw

theorem functionLine_cases {fs : List FunctionDef} (hf : ∀ b ∈ fs, b ∈ s.functions)
    (hl : l ∈ functionLines fs) :
    Text.Plain l ∨ l = opening ∨ ∃ b ∈ fs, l = Sentinel.function b.name := by
  obtain ⟨b, hb, hl⟩ := List.mem_flatMap.mp hl
  exact ((h.functions b (hf b hb)).line_cases (hw.functions b (hf b hb)) hl).imp_right
    (Or.imp_right fun hs => ⟨b, hb, hs⟩)

theorem stateLine_cases {ss : List StateDef} (hss : ∀ b ∈ ss, b ∈ s.states) (hl : l ∈ stateLines ss) :
    Text.Plain l ∨ (l = opening ∨ l = indentUnit ++ opening) ∨
      ∃ b ∈ ss, (∃ a ∈ b.handlers, l = Sentinel.event a.event) ∨ l = Sentinel.state b.name := by
  obtain ⟨b, hb, hl⟩ := List.mem_flatMap.mp hl
  exact ((h.states b (hss b hb)).line_cases (hw.states b (hss b hb)) hl).imp_right
    (Or.imp_right fun hs => ⟨b, hb, hs⟩)

theorem line_cases (hl : l ∈ s.lines) :
    Text.Plain l ∨ (l = opening ∨ l = indentUnit ++ opening) ∨ l ∈ s.sentinels := by
  rw [mem_sentinels]
  rcases List.mem_append.mp hl with hl | hl
  · rcases h.functionLine_cases hw (fun _ hb => hb) hl with hp | ho | hs
    · exact Or.inl hp
    · exact Or.inr (Or.inl (Or.inl ho))
    · exact Or.inr (Or.inr (Or.inl hs))
  · rcases h.stateLine_cases hw (fun _ hb => hb) hl with hp | ho | hs
    · exact Or.inl hp
    · exact Or.inr (Or.inl ho)
    · exact Or.inr (Or.inr (Or.inr hs))

theorem quote_not_mem (hl : l ∈ s.lines) : '"' ∉ l := by
  rcases h.line_cases hw hl with hp | (rfl | rfl) | hs
  · exact hp .doubleQuote
  · decide
  · decide
  · exact hw.not_mem_sentinel (c := .doubleQuote) hs (by simp)

theorem eq_opening (hl : l ∈ s.lines) (ho : '{' ∈ l) : l = opening ∨ l = indentUnit ++ opening := by
  rcases h.line_cases hw hl with hp | he | hs
  · exact absurd ho (hp .openBrace)
  · exact he
  · exact absurd ho (hw.not_mem_sentinel (c := .openBrace) hs (by simp))

theorem mem_sentinels_of_brace (hl : l ∈ s.lines) (hc : '}' ∈ l) : l ∈ s.sentinels := by
  rcases h.line_cases hw hl with hp | (rfl | rfl) | hs
  · exact absurd hc (hp .closeBrace)
  · exact absurd hc brace_not_mem_opening
  · exact absurd hc brace_not_mem_event_opening
  · exact hs

end Script.Generated

/-! ## Nesting -/

theorem FunctionDef.Generated.nested {b : FunctionDef} (h : b.Generated) (hw : b.WellFormed) :
    Text.Nested 1 (Text.unlines b.lines) := by
  have front : Text.Plain (b.header ++ ['\n']) :=
    Text.plain_append.mpr ⟨plain_header hw.name hw.params, Text.plain_newline⟩
  have inner : Text.Plain (['\n'] ++ Text.unlines b.body) :=
    Text.plain_append.mpr ⟨Text.plain_newline, Text.plain_unlines.mpr h.body⟩
  have back : Text.Plain (Sentinel.tail b.name "' function" ++ ['\n', '\n']) :=
    Text.plain_append.mpr ⟨Sentinel.plain_function_tail hw.name, plain_blank_line⟩
  have e : Text.unlines b.lines = (b.header ++ ['\n']) ++ '{' :: ((['\n'] ++ Text.unlines b.body) ++
      '}' :: (Sentinel.tail b.name "' function" ++ ['\n', '\n'])) := by
    simp [lines, h.ending, Ending.line, Sentinel.function_eq, opening]
  rw [e]
  exact (Text.Nested.plain 0 inner).block front back

theorem Handler.Generated.nested {b : Handler} (h : b.Generated) (hw : b.WellFormed) :
    Text.Nested 1 (Text.unlines b.lines) := by
  have front : Text.Plain (b.header ++ ['\n'] ++ indentUnit) := by
    simp only [Text.plain_append]
    exact ⟨⟨plain_handler_header hw, Text.plain_newline⟩, plain_indentUnit⟩
  have inner : Text.Plain (['\n'] ++ Text.unlines b.body ++ indentUnit) := by
    simp only [Text.plain_append]
    exact ⟨⟨Text.plain_newline, Text.plain_unlines.mpr h.body⟩, plain_indentUnit⟩
  have back : Text.Plain (Sentinel.tail b.event.name "' event" ++ ['\n', '\n']) :=
    Text.plain_append.mpr ⟨Sentinel.plain_event_tail b.event, plain_blank_line⟩
  have e : Text.unlines b.lines = (b.header ++ ['\n'] ++ indentUnit) ++
      '{' :: ((['\n'] ++ Text.unlines b.body ++ indentUnit) ++
        '}' :: (Sentinel.tail b.event.name "' event" ++ ['\n', '\n'])) := by
    simp [lines, h.ending, Ending.line, Sentinel.event_eq, opening]
  rw [e]
  exact (Text.Nested.plain 0 inner).block front back

theorem StateDef.Generated.nested {b : StateDef} (h : b.Generated) (hw : b.WellFormed) :
    Text.Nested 2 (Text.unlines b.lines) := by
  have front : Text.Plain (b.name.label ++ ['\n']) :=
    Text.plain_append.mpr ⟨plain_label hw.name, Text.plain_newline⟩
  have handlers : Text.Nested 1 (b.handlers.flatMap fun a => Text.unlines a.lines) :=
    .flatMap fun a ha => (h.handlers a ha).nested (hw.handlers a ha)
  have inner := (Text.Nested.plain 1 Text.plain_newline).append handlers
  have back : Text.Plain (Sentinel.tail b.name.label "' state" ++ ['\n', '\n']) :=
    Text.plain_append.mpr ⟨Sentinel.plain_state_tail hw.name, plain_blank_line⟩
  have e : Text.unlines b.lines = (b.name.label ++ ['\n']) ++
      '{' :: ((['\n'] ++ b.handlers.flatMap fun a => Text.unlines a.lines) ++
        '}' :: (Sentinel.tail b.name.label "' state" ++ ['\n', '\n'])) := by
    simp [lines, h.ending, Ending.line, Sentinel.state_eq, opening, Text.unlines_flatMap]
  rw [e]
  exact inner.block front back

section
variable {s : Script} (h : s.Generated) (hw : s.WellFormed)
include h hw

theorem Script.Generated.nested_functionLines {fs : List FunctionDef} (hf : ∀ b ∈ fs, b ∈ s.functions) :
    Text.Nested 2 (Text.unlines (functionLines fs)) := by
  rw [functionLines, Text.unlines_flatMap]
  refine .flatMap fun b hb => ?_
  exact ((h.functions b (hf b hb)).nested (hw.functions b (hf b hb))).mono (by omega)

theorem Script.Generated.nested_stateLines {ss : List StateDef} (hs : ∀ b ∈ ss, b ∈ s.states) :
    Text.Nested 2 (Text.unlines (stateLines ss)) := by
  rw [stateLines, Text.unlines_flatMap]
  exact .flatMap fun b hb => (h.states b (hs b hb)).nested (hw.states b (hs b hb))

theorem Script.Generated.nested : Text.Nested 2 s.text := by
  have functions : Text.Nested 2 (Text.unlines (functionLines s.functions)) :=
    h.nested_functionLines hw fun _ hb => hb
  have states : Text.Nested 2 (Text.unlines (stateLines s.states)) :=
    h.nested_stateLines hw fun _ hb => hb
  have e : s.text = Text.unlines (functionLines s.functions) ++ Text.unlines (stateLines s.states) :=
    Text.unlines_append ..
  rw [e]
  exact functions.append states

/-- No brace is open in front of a function or a state. -/
theorem Script.Generated.depth_before {block : Block} {before opened after : List Text}
    (hb : s.BlockAt block before opened after) (hn : ∀ name e, block ≠ .handler name e) :
    Text.depth (Text.unlines before) = 0 := by
  cases hb with
  | function hf _ => exact (h.nested_functionLines hw fun b hb => by simp [hf, hb]).closed
  | state hs _ =>
    rw [Text.unlines_append, Text.depth_append, (h.nested_functionLines hw fun _ hb => hb).closed,
      (h.nested_stateLines hw fun b hb => by simp [hs, hb]).closed]
    rfl
  | handler => exact absurd rfl (hn _ _)

end

/-! ## Occurrences of sentinels -/

theorem count_eq_one {l₁ l₂ : List Text} {l : Text} (h₁ : l ∉ l₁) (h₂ : l ∉ l₂) :
    (l₁ ++ l :: l₂).count l = 1 := by
  rw [List.count_append, List.count_cons_self, List.count_eq_zero_of_not_mem h₁,
    List.count_eq_zero_of_not_mem h₂]

namespace Script.Generated
variable {s : Script} (h : s.Generated) (hw : s.WellFormed)
include h hw

theorem not_mem_functionLines {fs : List FunctionDef} (hf : ∀ b ∈ fs, b ∈ s.functions) {l : Text}
    (hc : '}' ∈ l) (hn : ∀ b ∈ fs, l ≠ Sentinel.function b.name) : l ∉ functionLines fs := by
  intro hl
  rcases h.functionLine_cases hw hf hl with hp | rfl | ⟨b, hb, hs⟩
  · exact hp .closeBrace hc
  · exact brace_not_mem_opening hc
  · exact hn b hb hs

theorem not_mem_stateLines {ss : List StateDef} (hss : ∀ b ∈ ss, b ∈ s.states) {l : Text}
    (hc : '}' ∈ l) (he : ∀ e, l ≠ Sentinel.event e) (hn : ∀ b ∈ ss, l ≠ Sentinel.state b.name) :
    l ∉ stateLines ss := by
  intro hl
  rcases h.stateLine_cases hw hss hl with hp | (rfl | rfl) | ⟨b, hb, ⟨a, ha, hs⟩ | hs⟩
  · exact hp .closeBrace hc
  · exact brace_not_mem_opening hc
  · exact brace_not_mem_event_opening hc
  · exact he a.event hs
  · exact hn b hb hs

theorem count_function {name : Text} (hn : name ∈ s.functions.map (·.name)) :
    s.lines.count (Sentinel.function name) = 1 := by
  obtain ⟨b, hb, rfl⟩ := List.mem_map.mp hn
  obtain ⟨fs, gs, hf⟩ := List.append_of_mem hb
  have names := hf ▸ hw.functionNames
  have brace := Sentinel.brace_mem_function b.name
  have others : ∀ cs : List FunctionDef, (∀ c ∈ cs, c ∈ s.functions) → b.name ∉ cs.map (·.name) →
      Sentinel.function b.name ∉ functionLines cs := fun cs hcs hm =>
    h.not_mem_functionLines hw hcs brace fun c hc he =>
      hm (Sentinel.function_inj he ▸ List.mem_map_of_mem hc)
  have states : Sentinel.function b.name ∉ stateLines s.states :=
    h.not_mem_stateLines hw (fun _ hc => hc) brace (fun e he => Sentinel.event_ne_function e _ he.symm)
      fun c _ => Sentinel.function_ne_state _ _
  rw [(BlockAt.function hf rfl).lines, (h.functions b hb).closing_eq]
  refine count_eq_one ?_ ?_
  · rw [List.mem_append, not_or]
    exact ⟨others fs (fun c hc => by simp [hf, hc]) (key_not_mem_before names),
      (h.functions b hb).not_mem_opened (hw.functions b hb) brace⟩
  · rw [List.mem_cons, List.mem_append, not_or, not_or]
    exact ⟨List.ne_nil_of_mem brace, others gs (fun c hc => by simp [hf, hc]) (key_not_mem_after names), states⟩

theorem count_state {name : StateName} (hn : name ∈ s.states.map (·.name)) :
    s.lines.count (Sentinel.state name) = 1 := by
  obtain ⟨b, hb, rfl⟩ := List.mem_map.mp hn
  obtain ⟨ss, ts, hs⟩ := List.append_of_mem hb
  have names := hs ▸ hw.stateNames
  have brace := Sentinel.brace_mem_state b.name
  have events : ∀ e, Sentinel.state b.name ≠ Sentinel.event e := fun e he => Sentinel.event_ne_state e _ he.symm
  have others : ∀ cs : List StateDef, (∀ c ∈ cs, c ∈ s.states) → b.name ∉ cs.map (·.name) →
      Sentinel.state b.name ∉ stateLines cs := fun cs hcs hm =>
    h.not_mem_stateLines hw hcs brace events fun c hc he =>
      hm (Sentinel.state_inj he ▸ List.mem_map_of_mem hc)
  have functions : Sentinel.state b.name ∉ functionLines s.functions :=
    h.not_mem_functionLines hw (fun _ hc => hc) brace fun c _ he => Sentinel.function_ne_state _ _ he.symm
  rw [(BlockAt.state hs rfl).lines, (h.states b hb).closing_eq]
  refine count_eq_one ?_ ?_
  · rw [List.mem_append, List.mem_append, not_or, not_or]
    exact ⟨⟨functions, others ss (fun c hc => by simp [hs, hc]) (key_not_mem_before names)⟩,
      (h.states b hb).not_mem_opened (hw.states b hb) brace events⟩
  · rw [List.mem_cons, not_or]
    exact ⟨List.ne_nil_of_mem brace, others ts (fun c hc => by simp [hs, hc]) (key_not_mem_after names)⟩

end Script.Generated

theorem StateDef.Generated.count_event {b : StateDef} (h : b.Generated) (hw : b.WellFormed) {a : Handler}
    (ha : a ∈ b.handlers) :
    (opening :: b.handlers.flatMap Handler.lines).count (Sentinel.event a.event) = 1 := by
  obtain ⟨hs, ks, hh⟩ := List.append_of_mem ha
  have events := hh ▸ hw.events
  have brace := Sentinel.brace_mem_event a.event
  -- only closing lines have the brace, and those of other events name these events
  have others : ∀ cs : List Handler, (∀ c ∈ cs, c ∈ b.handlers) → a.event ∉ cs.map (·.event) →
      Sentinel.event a.event ∉ cs.flatMap Handler.lines := by
    intro cs hcs hm hl
    obtain ⟨c, hc, hl⟩ := List.mem_flatMap.mp hl
    rcases (h.handlers c (hcs c hc)).line_cases (hw.handlers c (hcs c hc)) hl with hp | ho | he
    · exact hp .closeBrace brace
    · exact brace_not_mem_event_opening (ho ▸ brace)
    · exact hm (Sentinel.event_inj he ▸ List.mem_map_of_mem hc)
  have split : opening :: b.handlers.flatMap Handler.lines = (opening :: (hs.flatMap Handler.lines ++
      a.opened)) ++ Sentinel.event a.event :: ([] :: ks.flatMap Handler.lines) := by
    simp [hh, Handler.lines_eq, (h.handlers a ha).closing_eq]
  rw [split]
  refine count_eq_one ?_ ?_
  · rw [List.mem_cons, List.mem_append, not_or, not_or]
    exact ⟨fun ho => brace_not_mem_opening (ho ▸ brace),
      others hs (fun c hc => by simp [hh, hc]) (key_not_mem_before events),
      (h.handlers a ha).not_mem_opened (hw.handlers a ha) brace⟩
  · rw [List.mem_cons, not_or]
    exact ⟨List.ne_nil_of_mem brace, others ks (fun c hc => by simp [hh, hc]) (key_not_mem_after events)⟩

namespace Script

theorem lines_text {s : Script} (hw : s.WellFormed) (hne : s.lines ≠ []) : Text.lines s.text = s.lines :=
  Text.lines_unlines hw.newline_not_mem hne

theorem mem_lines_text {s : Script} (hw : s.WellFormed) {l : Text} (hl : l ∈ Text.lines s.text) :
    l ∈ s.lines ∨ l = [] := by
  by_cases hne : s.lines = []
  · rw [text, hne] at hl
    exact Or.inr (List.mem_singleton.mp hl)
  · rw [lines_text hw hne] at hl
    exact Or.inl hl

end Script

namespace Draft

/-- The document of a draft that steps lead to, if they load no document but the draft's own. -/
theorem generated_structure (steps : List Step) (h : empty.LoadsOwn steps) :
    let d := empty.after steps
    '"' ∉ d.document ∧
    (∀ l ∈ Text.lines d.document, '{' ∈ l → l = "\x7b".toList ∨ l = "    \x7b".toList) ∧
    (∀ l ∈ Text.lines d.document, '}' ∈ l → l ∈ d.script.sentinels) ∧
    (∀ front, front <+: d.document → 0 ≤ Text.depth front ∧ Text.depth front ≤ 2) ∧
    (∀ block before opened after, d.script.BlockAt block before opened after →
      (∀ name e, block ≠ .handler name e) → Text.depth (Text.unlines before) = 0) ∧
    Text.depth d.document = 0 ∧
    (∀ name ∈ d.functionNames, (Text.lines d.document).count (Sentinel.function name) = 1) ∧
    (∀ name ∈ d.stateNames, (Text.lines d.document).count (Sentinel.state name) = 1) ∧
    ∀ state ∈ d.script.states, ∃ before inner after,
      d.script.BlockAt (.state state.name) before (state.name.label :: inner)
        (Sentinel.state state.name :: after) ∧
      Text.lines d.document = before ++ state.name.label :: inner ++ Sentinel.state state.name :: after ∧
      ∀ a ∈ state.handlers, inner.count (Sentinel.event a.event) = 1 := by
  intro d
  have hw : d.script.WellFormed := (wellFormed_empty.after steps).script
  have hg : d.script.Generated := generated_after wellFormed_empty Script.generated_empty h
  have nested : Text.Nested 2 d.document := hg.nested hw
  refine ⟨?_, ?_, ?_, nested.bounded, ?_, nested.closed, ?_, ?_, ?_⟩
  · intro hq
    rcases Text.mem_of_mem_unlines hq with hq | ⟨l, hl, hq⟩
    · exact absurd hq (by decide)
    · exact hg.quote_not_mem hw hl hq
  · intro l hl ho
    rcases Script.mem_lines_text hw hl with hl | rfl
    · exact hg.eq_opening hw hl ho
    · cases ho
  · intro l hl hc
    rcases Script.mem_lines_text hw hl with hl | rfl
    · exact hg.mem_sentinels_of_brace hw hl hc
    · cases hc
  · exact fun block before opened after hb hn => hg.depth_before hw hb hn
  · intro name hn
    have count := hg.count_function hw hn
    rwa [document, Script.lines_text hw fun he => by simp [he] at count]
  · intro name hn
    have count := hg.count_state hw hn
    rwa [document, Script.lines_text hw fun he => by simp [he] at count]
  · intro state hs
    obtain ⟨ss, ts, hss⟩ := List.append_of_mem hs
    have place := Script.BlockAt.state hss rfl
    rw [(hg.states state hs).closing_eq] at place
    refine ⟨_, _, _, place, ?_, fun a ha => (hg.states state hs).count_event (hw.states state hs) ha⟩
    have lines := place.lines
    rw [document, Script.lines_text hw fun he => by simp [he] at lines, lines]
    rfl

/-- The body of the handler has lines like a label and like the end of a sentinel, and the document is
loaded between two edits. -/
theorem generated_structure_reloaded :
    let first : List Step := [.registerEvent "" .timer none,
      .addEventLine "" .timer "default\n// End of 'timer' event\n// End of 'f'"]
    let steps := first ++ [.setDocument (empty.after first).document, .defineFunction "f" []]
    let d := empty.after steps
    empty.LoadsOwn steps ∧ Text.depth d.document = 0 ∧
      (Text.lines d.document).count (Sentinel.function "f") = 1 ∧
      (Text.lines d.document).count (Sentinel.state .default) = 1 := by
  intro first steps d
  have loads : empty.LoadsOwn steps := by
    refine ⟨nofun, nofun, fun t ht => ?_, nofun, trivial⟩
    cases ht
    rfl
  obtain ⟨-, -, -, -, -, depth, functions, states, -⟩ := generated_structure steps loads
  exact ⟨loads, depth, functions "f" (by decide +kernel), states .default (by decide +kernel)⟩

end Draft

end LslScript
