import LslScript.Proofs.Expanding
import LslScript.Proofs.Insertions
import Mathlib.Data.List.Infix

/-!
# Persisted scripts

A script is persisted as the expansion of its text. If no name has a token, expanding changes nothing but
the lines in bodies, each on its own (`Script.expand_text`). Those lines are lines of what was inserted, so
the expanded text is read back if no insertion has a line that expands to one that closes a block
(`Draft.setDocument_expanded`).
-/

namespace LslScript

open Placeholder (expand expand_nil expand_cons expand_append_cons expand_append_left)
open Insertion (IsLineOf)

def Text.TokenFree (t : Text) : Prop := ∀ d : Delimiter, ¬ d.token <:+: t

instance (t : Text) : Decidable t.TokenFree :=
  decidable_of_iff (∀ d ∈ Delimiter.all, ¬ d.token <:+: t) ⟨fun h d => h d d.mem_all, fun h d _ => h d⟩

theorem Text.TokenFree.expand_eq {t : Text} (h : t.TokenFree) : expand t = t := Placeholder.expand_of_no_token h

theorem expand_indent_append (depth : Nat) (t : Text) : expand (indent depth ++ t) = indent depth ++ expand t := by
  refine expand_append_left (fun c hc => ?_) t
  by_cases h : c = ' '
  · subst h
    rfl
  · exact absurd hc (not_mem_indent h depth)

theorem expand_indentUnit_append (t : Text) : expand (indentUnit ++ t) = indentUnit ++ expand t := by
  simpa [indent] using expand_indent_append 1 t

theorem ValueType.expand_name (ty : ValueType) : expand ty.name = ty.name := by cases ty <;> decide +kernel

theorem Event.expand_name (e : Event) : expand e.name = e.name := by
  have h : Event.all.all (fun e => expand e.name == e.name) = true := by decide +kernel
  simpa using List.all_eq_true.mp h e e.mem_all

namespace Param

theorem expand_text {p : Param} (h : p.ident.TokenFree) : expand p.text = p.text := by
  have e : p.text = p.type.name ++ ' ' :: p.ident := by simp [text]
  rw [e, expand_append_cons (by decide), p.type.expand_name, h.expand_eq]

theorem expand_listing : ∀ {ps : List Param}, (∀ p ∈ ps, p.ident.TokenFree) →
    expand (listing ps) = listing ps
  | [], _ => rfl
  | [p], h => by
    have e : listing [p] = p.text := by simp [listing, Text.listing]
    rw [e, expand_text (h p (List.mem_singleton_self p))]
  | p :: q :: ps, h => by
    obtain ⟨hp, hps⟩ := List.forall_mem_cons.mp h
    rw [listing_cons_cons, expand_append_cons (by decide), expand_cons (by decide), expand_text hp,
      expand_listing hps]

theorem expand_header {name : Text} {ps : List Param} (hn : expand name = name)
    (hp : ∀ p ∈ ps, p.ident.TokenFree) : expand (header name ps) = header name ps := by
  rw [header_eq, expand_append_cons (by decide), expand_append_cons (by decide), hn, expand_listing hp, expand_nil]

end Param

theorem StateName.expand_label {n : StateName} (h : n.text.TokenFree) : expand n.label = n.label := by
  unfold label
  split
  · exact h.expand_eq
  · have e : "state ".toList ++ n.text = "state".toList ++ ' ' :: n.text := by simp
    have word : expand "state".toList = "state".toList := by decide +kernel
    rw [e, expand_append_cons (by decide), word, h.expand_eq]

namespace Sentinel

/-- A quoted name between two texts. -/
theorem expand_quoted {before owner after : Text} (hb : expand before = before) (ho : expand owner = owner)
    (ha : expand after = after) : expand ((before ++ ['\'']) ++ owner ++ '\'' :: after) =
      (before ++ ['\'']) ++ owner ++ '\'' :: after := by
  simp only [List.append_assoc, List.cons_append, List.nil_append]
  rw [expand_append_cons (by decide), expand_append_cons (by decide), hb, ho, ha]

theorem expand_tail {owner kind ending : Text} (he : ending = '\'' :: kind) (ho : expand owner = owner)
    (hk : expand kind = kind) : expand (tail owner ending) = tail owner ending := by
  have before : expand "  // End of ".toList = "  // End of ".toList := by decide +kernel
  have quote : "  // End of '".toList = "  // End of ".toList ++ ['\''] := by decide +kernel
  subst he
  unfold tail
  rw [quote]
  exact expand_quoted before ho hk

theorem expand_function {name : Text} (h : name.TokenFree) : expand (function name) = function name := by
  have kind : expand " function".toList = " function".toList := by decide +kernel
  rw [function_eq, expand_cons (by decide), expand_tail (by decide +kernel) h.expand_eq kind]

theorem expand_event (e : Event) : expand (event e) = event e := by
  have kind : expand " event".toList = " event".toList := by decide +kernel
  rw [event_eq, expand_indentUnit_append, expand_cons (by decide),
    expand_tail (by decide +kernel) e.expand_name kind]

theorem expand_state {n : StateName} (h : n.text.TokenFree) : expand (state n) = state n := by
  have kind : expand " state".toList = " state".toList := by decide +kernel
  rw [state_eq, expand_cons (by decide), expand_tail (by decide +kernel) (StateName.expand_label h) kind]

end Sentinel

def FunctionDef.identifiers (b : FunctionDef) : List Text := b.name :: b.params.map (·.ident)

def Handler.identifiers (b : Handler) : List Text := b.params.map (·.ident)

def StateDef.identifiers (b : StateDef) : List Text := b.name.text :: b.handlers.flatMap Handler.identifiers

def Script.identifiers (s : Script) : List Text :=
  s.functions.flatMap FunctionDef.identifiers ++ s.states.flatMap StateDef.identifiers

/-! ## Expanded bodies -/

def FunctionDef.persisted (b : FunctionDef) : FunctionDef := { b with body := b.body.map expand }

def Handler.persisted (b : Handler) : Handler := { b with body := b.body.map expand }

def StateDef.persisted (b : StateDef) : StateDef := { b with handlers := b.handlers.map Handler.persisted }

/-- The script whose text is the expanded one. -/
def Script.persisted (s : Script) : Script :=
  ⟨s.functions.map FunctionDef.persisted, s.states.map StateDef.persisted⟩

/-- If the lines of each block are expanded by a change of it, so are the lines of all blocks. -/
theorem flatMap_map_lines {α : Type} {f : α → α} {lines : α → List Text} {as : List α}
    (h : ∀ a ∈ as, lines (f a) = (lines a).map expand) :
    (as.map f).flatMap lines = (as.flatMap lines).map expand := by
  rw [List.flatMap_map, List.map_flatMap]
  exact List.flatMap_congr h

theorem expand_opening : expand opening = opening := by decide +kernel

theorem expand_event_opening : expand (indentUnit ++ opening) = indentUnit ++ opening := by decide +kernel

theorem FunctionDef.Generated.lines_persisted {b : FunctionDef} (h : b.Generated)
    (hn : ∀ t ∈ b.identifiers, t.TokenFree) : b.persisted.lines = b.lines.map expand := by
  obtain ⟨hname, hps⟩ := List.forall_mem_cons.mp hn
  have header : expand b.header = b.header :=
    Param.expand_header hname.expand_eq fun p hp => hps _ (List.mem_map_of_mem hp)
  simp only [lines, persisted, h.ending, Ending.line, List.map_append, List.map_cons, List.map_nil, header,
    expand_opening, Sentinel.expand_function hname]
  rfl

theorem Handler.Generated.lines_persisted {b : Handler} (h : b.Generated)
    (hn : ∀ t ∈ b.identifiers, t.TokenFree) : b.persisted.lines = b.lines.map expand := by
  have params := Param.expand_header b.event.expand_name fun p hp => hn _ (List.mem_map_of_mem hp)
  have header : expand b.header = b.header := by
    rw [Handler.header, expand_indentUnit_append, params]
  simp only [lines, persisted, h.ending, Ending.line, List.map_append, List.map_cons, List.map_nil, header,
    expand_event_opening, Sentinel.expand_event]
  rfl

theorem StateDef.Generated.lines_persisted {b : StateDef} (h : b.Generated)
    (hn : ∀ t ∈ b.identifiers, t.TokenFree) : b.persisted.lines = b.lines.map expand := by
  obtain ⟨hname, hhandlers⟩ := List.forall_mem_cons.mp hn
  have handlers := flatMap_map_lines (f := Handler.persisted) fun a ha =>
    (h.handlers a ha).lines_persisted fun t ht => hhandlers t (List.mem_flatMap.mpr ⟨a, ha, ht⟩)
  simp only [lines, persisted, h.ending, Ending.line, List.map_append, List.map_cons, List.map_nil, handlers,
    expand_opening, expand_nil, StateName.expand_label hname, Sentinel.expand_state hname]

/-- Expanding the text of a script expands the lines in its bodies. -/
theorem Script.expand_text {s : Script} (h : s.Generated) (hn : ∀ t ∈ s.identifiers, t.TokenFree) :
    expand s.text = s.persisted.text := by
  obtain ⟨hf, hs⟩ := List.forall_mem_append.mp hn
  have functions := flatMap_map_lines (f := FunctionDef.persisted) fun b hb =>
    (h.functions b hb).lines_persisted fun t ht => hf t (List.mem_flatMap.mpr ⟨b, hb, ht⟩)
  have states := flatMap_map_lines (f := StateDef.persisted) fun b hb =>
    (h.states b hb).lines_persisted fun t ht => hs t (List.mem_flatMap.mpr ⟨b, hb, ht⟩)
  rw [text, text, Placeholder.expand_unlines, lines, lines, persisted, functions, states, List.map_append]

/-! ## Lines that close no block -/

theorem indent_add (m n : Nat) : indent (m + n) = indent m ++ indent n := by
  rw [indent, List.replicate_add, List.flatten_append, indent, indent]

def Text.Inside (depth : Nat) (l : Text) : Prop :=
  ∀ outer < depth, Text.startsWith (indent outer ++ "\x7d") l = false

instance (depth : Nat) (l : Text) : Decidable (Text.Inside depth l) :=
  inferInstanceAs (Decidable (∀ outer < depth, _))

theorem Text.inside_nil (depth : Nat) : Inside depth [] := by
  intro outer _
  cases h : indent outer <;> simp [startsWith]

theorem Text.inside_indent (depth : Nat) (t : Text) : Inside depth (indent depth ++ t) := by
  intro outer h
  obtain ⟨m, rfl⟩ := Nat.exists_eq_add_of_lt h
  refine Bool.eq_false_iff.mpr fun hp => ?_
  have indented : indent (outer + m + 1) ++ t = indent outer ++ (' ' :: ("   ".toList ++ indent m ++ t)) := by
    rw [Nat.add_assoc, Nat.add_comm m 1, indent_add, indent_add]
    simp [indent, indentUnit]
  rw [startsWith, List.isPrefixOf_iff_prefix, indented, List.prefix_append_right_inj] at hp
  exact absurd (List.cons_prefix_cons.mp hp).1 (by decide)

/-- No line of the expanded content behind the first closes a block. -/
def Insertion.StaysInside (i : Insertion) : Prop :=
  ∀ l ∈ (Text.lines (expand i.content)).tail, Text.Inside i.depth l

instance (i : Insertion) : Decidable i.StaysInside := inferInstanceAs (Decidable (∀ l ∈ _, _))

theorem Insertion.IsLineOf.inside {insertions : List Insertion} (h : ∀ i ∈ insertions, i.StaysInside)
    {depth : Nat} {l : Text} (hl : IsLineOf insertions depth l) : Text.Inside depth (expand l) := by
  rcases hl with rfl | ⟨i, hi, rfl, hl⟩
  · exact Text.inside_nil depth
  · obtain ⟨first, hlines⟩ := Text.exists_lines_append (not_mem_indent (by decide) i.depth) i.content
    rw [hlines, List.mem_cons] at hl
    rcases hl with rfl | hl
    · rw [expand_indent_append]
      exact Text.inside_indent i.depth (expand first)
    · have expanded := List.mem_map_of_mem (f := expand) hl
      rw [List.map_tail, ← Placeholder.lines_expand] at expanded
      exact h i hi _ expanded

theorem FunctionDef.WellFormed.persisted {b : FunctionDef} (h : b.WellFormed)
    (hb : ∀ l ∈ b.body, Text.Inside 1 (expand l)) : b.persisted.WellFormed := by
  refine ⟨h.name, h.params, List.forall_mem_map.mpr fun l hl => ⟨hb l hl 0 (by decide), ?_⟩, h.ending⟩
  exact Placeholder.newline_not_mem_expand (h.body l hl).2

theorem Handler.WellFormed.persisted {b : Handler} (h : b.WellFormed)
    (hb : ∀ l ∈ b.body, Text.Inside 2 (expand l)) : b.persisted.WellFormed := by
  refine ⟨h.params, h.types, List.forall_mem_map.mpr fun l hl => ⟨⟨?_, ?_⟩, ?_⟩, h.ending⟩
  · exact hb l hl 1 (by decide)
  · exact hb l hl 0 (by decide)
  · exact Placeholder.newline_not_mem_expand (h.body l hl).2

theorem StateDef.WellFormed.persisted {b : StateDef} (h : b.WellFormed)
    (hb : ∀ a ∈ b.handlers, ∀ l ∈ a.body, Text.Inside 2 (expand l)) : b.persisted.WellFormed := by
  refine ⟨h.name, ?_, List.forall_mem_map.mpr fun a ha => (h.handlers a ha).persisted (hb a ha), h.ending⟩
  have events : b.persisted.handlers.map (·.event) = b.handlers.map (·.event) := List.map_map
  rw [events]
  exact h.events

theorem Script.functionNames_persisted (s : Script) :
    s.persisted.functions.map (·.name) = s.functions.map (·.name) := List.map_map

theorem Script.stateNames_persisted (s : Script) :
    s.persisted.states.map (·.name) = s.states.map (·.name) := List.map_map

theorem Script.WellFormed.persisted {s : Script} (h : s.WellFormed)
    (hb : s.Bodies fun depth l => Text.Inside depth (expand l)) : s.persisted.WellFormed := by
  refine ⟨?_, ?_, ?_, ?_⟩
  · rw [functionNames_persisted]
    exact h.functionNames
  · rw [stateNames_persisted]
    exact h.stateNames
  · exact List.forall_mem_map.mpr fun b hb' => (h.functions b hb').persisted (hb.functions b hb')
  · exact List.forall_mem_map.mpr fun b hb' => (h.states b hb').persisted (hb.handlers b hb')

namespace Draft

theorem eventsOf?_persisted {d d' : Draft} (h : d'.script = d.script.persisted) (raw : Text) :
    d'.eventsOf? raw = d.eventsOf? raw := by
  unfold eventsOf?
  split
  · rename_i name _
    rw [h, Script.state?, Script.persisted, List.find?_map, Option.map_map]
    exact congrArg (Option.map · _) (funext fun b => List.map_map)
  · rfl

theorem loadsOwn_of_not_mem : ∀ {steps : List Step} {d : Draft}, (∀ t, Step.setDocument t ∉ steps) →
    d.LoadsOwn steps
  | [], _, _ => trivial
  | _ :: _, _, hs => ⟨fun t ht => absurd (ht ▸ List.mem_cons_self ..) (hs t),
      loadsOwn_of_not_mem fun t ht => hs t (List.mem_cons_of_mem _ ht)⟩

/-- The expanded document of a draft is read back as it stands, as a script with the same names and events. -/
theorem setDocument_expanded (steps : List Step) (hs : ∀ t, Step.setDocument t ∉ steps)
    (hn : ∀ t ∈ (empty.after steps).script.identifiers, t.TokenFree)
    (hi : ∀ i ∈ insertions steps, i.StaysInside) :
    let d := empty.after steps
    ∃ d', (∀ d₀, (Step.setDocument d.expanded).run d₀ = ⟨.ok .done, [], d'⟩) ∧ d'.document = d.expanded ∧
      d'.stateNames = d.stateNames ∧ d'.functionNames = d.functionNames ∧
      ∀ raw, d'.eventsOf? raw = d.eventsOf? raw := by
  intro d
  have wellFormed : d.script.WellFormed := (wellFormed_empty.after steps).script
  have generated : d.script.Generated :=
    generated_after wellFormed_empty Script.generated_empty (loadsOwn_of_not_mem hs)
  have bodies : d.script.Bodies (IsLineOf (insertions steps)) := bodies_after hs Script.Bodies.empty
  have text : d.expanded = d.script.persisted.text := Script.expand_text generated hn
  have persisted := wellFormed.persisted (bodies.mono fun _ _ hl => hl.inside hi)
  have read : ofDocument d.expanded = .ok ⟨.ofScript d.script.persisted, d.script.persisted⟩ := by
    rw [text]
    exact ofDocument_eq_ok_iff.mpr ⟨Script.ofText_text persisted, rfl⟩
  refine ⟨⟨.ofScript d.script.persisted, d.script.persisted⟩, fun d₀ => ?_, text.symm,
    d.script.stateNames_persisted, d.script.functionNames_persisted, eventsOf?_persisted rfl⟩
  rw [Step.run, read]
  rfl

/-- Lines that expand to closing braces, indented in the handler and first of their content in the function. The
line that would close its function is inserted before a reset. -/
theorem setDocument_expanded_braces :
    let steps : List Step := [.defineFunction "g" [], .addFunctionLine "g" "a();\n__cbrace__", .reset,
      .registerEvent "" .timer none, .addEventLine "" .timer "if (a) __obrace__\n        __cbrace__",
      .defineFunction "f" [(.integer, "n")], .addFunctionLine "f" "__cbrace__"]
    let d := empty.after steps
    let text : Text := "f(integer n)\n\x7b\n    \x7d\n\x7d  // End of 'f' function\n\n" ++
      ("default\n\x7b\n    timer()\n    \x7b\n        if (a) \x7b\n        \x7d\n".toList ++
        "    \x7d  // End of 'timer' event\n\n\x7d  // End of 'default' state\n\n".toList)
    d.expanded = text ∧ (∀ t ∈ d.script.identifiers, t.TokenFree) ∧ (∀ i ∈ insertions steps, i.StaysInside) ∧
      ∃ d', (∀ d₀, (Step.setDocument text).run d₀ = ⟨.ok .done, [], d'⟩) ∧ d'.document = text ∧
        d'.functionNames = d.functionNames ∧ d'.eventsOf? "" = some [.timer] := by
  intro steps d text
  have expanded : d.expanded = text := by decide +kernel
  have names : ∀ t ∈ d.script.identifiers, t.TokenFree := by decide +kernel
  have inside : ∀ i ∈ insertions steps, i.StaysInside := by decide +kernel
  have events : d.eventsOf? "" = some [.timer] := by decide +kernel
  obtain ⟨d', loaded, document, -, functions, same⟩ := setDocument_expanded steps (by simp [steps]) names inside
  rw [expanded] at loaded document
  exact ⟨expanded, names, inside, d', loaded, document, functions, (same "").trans events⟩

end Draft

end LslScript
