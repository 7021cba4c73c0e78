import LslScript.Proofs.Blocks
import LslScript.Proofs.Reachable

/-!
# An edit is one insertion

An edit that succeeds puts one piece of text into the document and leaves the rest of it as it is
(`Draft.edit_splices`). `Step.Inserts` lists the pieces and their places: in front of all, behind all, or
right before the line that closes the block they go into.
-/

namespace LslScript

/-- The lines of a script up to the end of a block, and those from its closing line on. No other block
ends at this place, and the block ends at no other. -/
def Script.EndsAt (s : Script) (block : Block) (front after : List Text) : Prop :=
  (∃ before opened, front = before ++ opened ∧ s.BlockAt block before opened after) ∧
    ∀ other before opened after', s.BlockAt other before opened after' →
      (before ++ opened = front ↔ other = block)

def Step.isEdit : Step → Bool
  | declareState _ | registerEvent .. | addEventLine .. | addCall .. | defineFunction ..
  | defineFunctionOfPairs .. | addFunctionLine .. | addBlankLine _ => true
  | _ => false

/-- What an edit puts into the document of a draft, with the text in front of it and behind it. -/
inductive Step.Inserts (d : Draft) : Step → (front inserted back : Text) → Prop
  | nothingDeclared (raw : Text) : Inserts d (.declareState raw) d.document [] []
  | function {raw : Text} {pairs : List (ValueType × Text)} {ps : List Param} :
    (pairs.mapM fun (type, ident) => Param.named type ident) = .ok ps →
      Inserts d (.defineFunction raw pairs) [] (Sealed.function raw.trim ps []) d.document
  | functionOfPairs {raw : Text} {groups : List (List Text)} {ps : List Param} :
    groups.flatten.mapM Param.ofPair = .ok ps →
      Inserts d (.defineFunctionOfPairs raw groups) [] (Sealed.function raw.trim ps []) d.document
  | state {raw : Text} {name : StateName} {e : Event} {idents : Option (List Text)} {ps : List Param} :
    StateName.ofText raw = .ok name → e.paramsFor idents = .ok ps → name ∉ d.stateNames →
      Inserts d (.registerEvent raw e idents) d.document (Sealed.state name (Sealed.event e ps [])) []
  | event {raw : Text} {name : StateName} {e : Event} {idents : Option (List Text)} {ps : List Param}
    {front after : List Text} :
    StateName.ofText raw = .ok name → e.paramsFor idents = .ok ps → d.script.EndsAt (.state name) front after →
      Inserts d (.registerEvent raw e idents) (Text.unlines front) (Sealed.event e ps []) (Text.unlines after)
  | blankEventLine {raw content : Text} {e : Event} : content.isBlank = true →
      Inserts d (.addEventLine raw e content) d.document [] []
  | eventLine {raw content : Text} {name : StateName} {e : Event} {front after : List Text} :
    content.isBlank = false → StateName.ofText raw = .ok name →
    d.script.EndsAt (.handler name e) front (Sentinel.event e :: after) →
      Inserts d (.addEventLine raw e content) (Text.unlines front) (Text.terminated (indent 2 ++ content))
        (Text.unlines (Sentinel.event e :: after))
  | call {raw : Text} {e : Event} {call : Call} {front inserted back : Text} :
    Inserts d (.addEventLine raw e call.render) front inserted back →
      Inserts d (.addCall raw e call) front inserted back
  | blankFunctionLine {name content : Text} : content.isBlank = true →
      Inserts d (.addFunctionLine name content) d.document [] []
  | functionLine {name content : Text} {front after : List Text} : content.isBlank = false →
    d.script.EndsAt (.function name) front (Sentinel.function name :: after) →
      Inserts d (.addFunctionLine name content) (Text.unlines front) (Text.terminated (indent 1 ++ content))
        (Text.unlines (Sentinel.function name :: after))
  | blankLine {name : Text} {front after : List Text} :
    d.script.EndsAt (.function name) front (Sentinel.function name :: after) →
      Inserts d (.addBlankLine name) (Text.unlines front) "\n" (Text.unlines (Sentinel.function name :: after))

def Step.Splices (step : Step) (d d' : Draft) : Prop :=
  ∃ front inserted back, step.Inserts d front inserted back ∧ d.document = front ++ back ∧
    d'.document = front ++ inserted ++ back

/-! ## Splices -/

theorem Script.BlockAt.endsAt {s : Script} (hs : s.WellFormed) {block : Block}
    {before opened after : List Text} (h : s.BlockAt block before opened after) :
    s.EndsAt block (before ++ opened) after := by
  refine ⟨⟨before, opened, rfl, h⟩, fun other before' opened' after' h' => ⟨fun he => ?_, ?_⟩⟩
  · exact h'.block_eq hs h he
  · rintro rfl
    obtain ⟨rfl, rfl, -⟩ := h'.unique hs h
    rfl

namespace Draft
variable {d d' : Draft}

/-- Nothing is put in where the script stays the same. -/
theorem splices_nothing {step : Step} (h : step.Inserts d d.document [] []) (hs : d'.script = d.script) :
    step.Splices d d' :=
  ⟨_, _, _, h, by simp, by simp [document, hs]⟩

/-- Lines put in at the end of a block are put into the text there. -/
theorem splices_lines {step : Step} {block : Block} {before opened after ls : List Text}
    (hb : d.script.BlockAt block before opened after)
    (h : step.Inserts d (Text.unlines (before ++ opened)) (Text.unlines ls) (Text.unlines after))
    (hd : d'.script.BlockAt block before (opened ++ ls) after) : step.Splices d d' := by
  refine ⟨_, _, _, h, ?_, ?_⟩
  · rw [document, Script.text, hb.lines, Text.unlines_append]
  · rw [document, Script.text, hd.lines, ← List.append_assoc, Text.unlines_append, Text.unlines_append]

theorem document_addFunction (d : Draft) (name : Text) (ps : List Param) :
    Script.text (d.script.addFunction ⟨name, ps, [], .sentinel⟩) =
      Sealed.function name ps [] ++ d.document := by
  have sealed := FunctionDef.unlines_lines (b := ⟨name, ps, [], .sentinel⟩) rfl
  rw [Script.text, Script.lines, Script.addFunction, List.flatMap_cons, List.append_assoc,
    Text.unlines_append, sealed]
  rfl

theorem document_addState (d : Draft) (name : StateName) (e : Event) (ps : List Param) :
    Script.text (d.script.addState ⟨name, [⟨e, ps, [], .sentinel⟩], .sentinel⟩) =
      d.document ++ Sealed.state name (Sealed.event e ps []) := by
  have inner := Handler.unlines_lines (b := ⟨e, ps, [], .sentinel⟩) rfl
  have sealed := StateDef.unlines_lines (b := ⟨name, [⟨e, ps, [], .sentinel⟩], .sentinel⟩) rfl
  rw [List.flatMap_singleton, inner] at sealed
  rw [Script.text, Script.lines, Script.addState, List.flatMap_append, List.flatMap_singleton,
    ← List.append_assoc, Text.unlines_append, sealed]
  rfl

theorem splices_registerEvent (hd : d.WellFormed) {raw : Text} {e : Event} {idents : Option (List Text)}
    {log : List LogRecord} (h : d.registerEvent raw e idents = .ok (log, d')) :
    (Step.registerEvent raw e idents).Splices d d' := by
  obtain ⟨name, ps, written, hn, hps, ha, -⟩ := registerEvent_ok h
  obtain ⟨-, ⟨-, hw, rfl⟩ | ⟨-, -, hs, rfl⟩⟩ := appendHandler_ok ha
  · exact ⟨_, _, _, .state hn hps (hd.not_mem_stateNames hw), by simp, by
      rw [List.append_nil]; exact document_addState d name e ps⟩
  · obtain ⟨state, hstate⟩ := Option.isSome_iff_exists.mp hs
    obtain ⟨before, after, hb, changed⟩ := Script.blockAt_addHandler hstate
    have sealed := Handler.unlines_lines (b := ⟨e, ps, [], .sentinel⟩) rfl
    refine splices_lines hb ?_ (changed _)
    rw [sealed]
    exact .event hn hps (hb.endsAt hd.script)

/-- Content that is not blank becomes its text, indented and ended by a newline. -/
theorem unlines_of_bodyLines {depth : Nat} {content : Text} {ls : List Text}
    (h : bodyLines depth content = .ok ls) (hb : content.isBlank = false) :
    Text.unlines ls = Text.terminated (indent depth ++ content) := by
  rcases bodyLines_eq_ok_iff.mp h with ⟨hb', -⟩ | ⟨-, -, rfl⟩
  · rw [hb] at hb'; cases hb'
  · exact Text.unlines_lines _

theorem isBlank_of_bodyLines {depth : Nat} {content : Text} (h : bodyLines depth content = .ok []) :
    content.isBlank = true := by
  by_contra hb
  exact Text.terminated_ne_nil _ (unlines_of_bodyLines h (by simpa using hb)).symm

theorem isBlank_of_bodyLines_cons {depth : Nat} {content : Text} {ls : List Text}
    (h : bodyLines depth content = .ok ls) (hl : ls ≠ []) : content.isBlank = false := by
  rcases bodyLines_eq_ok_iff.mp h with ⟨-, rfl⟩ | ⟨hb, -⟩
  · exact absurd rfl hl
  · exact hb

theorem splices_addEventLine (hd : d.WellFormed) {raw content : Text} {e : Event}
    (h : d.addEventLine raw e content = .ok d') : (Step.addEventLine raw e content).Splices d d' := by
  obtain ⟨ls, hls, ⟨rfl, rfl⟩ | ⟨hl, name, state, b, hn, hs, hh, he, rfl⟩⟩ := addEventLine_ok h
  · exact splices_nothing (.blankEventLine (isBlank_of_bodyLines hls)) rfl
  · obtain ⟨before, after, hb, changed⟩ := Script.blockAt_addEventLines hs hh
    have blank := isBlank_of_bodyLines_cons hls hl
    rw [Handler.closing_of_sentinel hh he] at hb changed
    refine splices_lines hb ?_ (changed ls)
    rw [unlines_of_bodyLines hls blank]
    exact .eventLine blank hn (hb.endsAt hd.script)

theorem splices_appendToFunction (hd : d.WellFormed) {name : Text} {ls : List Text} {step : Step}
    (h : d.appendToFunction name ls = .ok d')
    (hstep : ∀ front after, d.script.EndsAt (.function name) front (Sentinel.function name :: after) →
      step.Inserts d (Text.unlines front) (Text.unlines ls) (Text.unlines (Sentinel.function name :: after))) :
    step.Splices d d' := by
  obtain ⟨b, hf, he, rfl⟩ := appendToFunction_ok h
  obtain ⟨before, after, hb, changed⟩ := Script.blockAt_addFunctionLines hf
  rw [FunctionDef.closing_of_sentinel hf he] at hb changed
  exact splices_lines hb (hstep _ _ (hb.endsAt hd.script)) (changed ls)

theorem splices_addFunctionLine (hd : d.WellFormed) {name content : Text}
    (h : d.addFunctionLine name content = .ok d') : (Step.addFunctionLine name content).Splices d d' := by
  obtain ⟨ls, hls, ⟨rfl, rfl⟩ | ⟨hl, h⟩⟩ := addFunctionLine_ok h
  · exact splices_nothing (.blankFunctionLine (isBlank_of_bodyLines hls)) rfl
  · have blank := isBlank_of_bodyLines_cons hls hl
    refine splices_appendToFunction hd h fun front after ends => ?_
    rw [unlines_of_bodyLines hls blank]
    exact .functionLine blank ends

end Draft

/-! ## Steps -/

theorem Outcome.ofEdit_ok {d : Draft} {x : Except Fault (Answer × List LogRecord × Draft)} {answer : Answer}
    (h : (ofEdit d x).answer = .ok answer) :
    ∃ log d', x = .ok (answer, log, d') ∧ (ofEdit d x).draft = d' := by
  cases x with
  | error fault => cases h
  | ok r =>
    cases h
    exact ⟨r.2.1, r.2.2, rfl, rfl⟩

theorem Outcome.ofEdit_map_ok {α : Type} {d : Draft} {x : Except Fault α}
    {f : α → Answer × List LogRecord × Draft} {answer : Answer}
    (h : (ofEdit d (x.map f)).answer = .ok answer) :
    ∃ a, x = .ok a ∧ (ofEdit d (x.map f)).draft = (f a).2.2 := by
  cases x with
  | error fault => cases h
  | ok a => exact ⟨a, rfl, rfl⟩

theorem Step.splices {d : Draft} (hd : d.WellFormed) {step : Step} {answer : Answer}
    (he : step.isEdit = true) (h : (step.run d).answer = .ok answer) :
    step.Splices d (step.run d).draft := by
  cases step with
  | declareState raw =>
    obtain ⟨⟨name, d'⟩, hr, hd'⟩ := Outcome.ofEdit_map_ok h
    obtain ⟨-, rfl⟩ := Draft.declareState_ok hr
    exact Draft.splices_nothing (.nothingDeclared raw) (by rw [run, hd'])
  | registerEvent raw e idents =>
    obtain ⟨⟨log, d'⟩, hr, hd'⟩ := Outcome.ofEdit_map_ok h
    rw [run, hd']
    exact Draft.splices_registerEvent hd hr
  | addEventLine raw e content =>
    obtain ⟨d', hr, hd'⟩ := Outcome.ofEdit_map_ok h
    rw [run, hd']
    exact Draft.splices_addEventLine hd hr
  | addCall raw e call =>
    obtain ⟨d', hr, hd'⟩ := Outcome.ofEdit_map_ok h
    rw [run, hd']
    -- a call is a line with what it is written as
    obtain ⟨front, inserted, back, hi, hold, hnew⟩ := Draft.splices_addEventLine hd hr
    exact ⟨front, inserted, back, .call hi, hold, hnew⟩
  | defineFunction raw pairs =>
    obtain ⟨log, d', hr, hd'⟩ := Outcome.ofEdit_ok h
    obtain ⟨ps, hps, hr⟩ := bind_ok_iff.mp hr
    obtain ⟨⟨name, d₁⟩, hf, hr⟩ := bind_ok_iff.mp hr
    obtain ⟨rfl, -, -, rfl⟩ := Draft.defineFunction_ok hf
    cases hr
    refine ⟨_, _, _, .function (mapError_eq_ok_iff.mp hps), rfl, ?_⟩
    rw [run, hd']
    exact Draft.document_addFunction d raw.trim ps
  | defineFunctionOfPairs raw groups =>
    obtain ⟨⟨name, d'⟩, hr, hd'⟩ := Outcome.ofEdit_map_ok h
    obtain ⟨ps, hps, hf⟩ := bind_ok_iff.mp hr
    obtain ⟨rfl, -, -, rfl⟩ := Draft.defineFunction_ok hf
    refine ⟨_, _, _, .functionOfPairs (mapError_eq_ok_iff.mp hps), rfl, ?_⟩
    rw [run, hd']
    exact Draft.document_addFunction d raw.trim ps
  | addFunctionLine name content =>
    obtain ⟨d', hr, hd'⟩ := Outcome.ofEdit_map_ok h
    rw [run, hd']
    exact Draft.splices_addFunctionLine hd hr
  | addBlankLine name =>
    obtain ⟨d', hr, hd'⟩ := Outcome.ofEdit_map_ok h
    rw [run, hd']
    exact Draft.splices_appendToFunction hd hr fun front after ends => .blankLine ends
  | _ => cases he

/-- An edit of a draft that steps lead to changes its document by one insertion, if it succeeds. -/
theorem Draft.edit_splices (steps : List Step) {step : Step} {answer : Answer} (he : step.isEdit = true)
    (h : (step.run (empty.after steps)).answer = .ok answer) :
    step.Splices (empty.after steps) (step.run (empty.after steps)).draft :=
  Step.splices (wellFormed_empty.after steps) he h

/-- Both states have a handler of this event, and both handlers end in the same line. -/
theorem Draft.edit_splices_first_state :
    let d := empty.after [.registerEvent "" .timer none, .registerEvent "two" .timer none]
    let step : Step := .addEventLine "default" .timer "x();"
    let front : Text := "default\n\x7b\n    timer()\n    \x7b\n"
    let back : Text := "    \x7d  // End of 'timer' event\n\n\x7d  // End of 'default' state\n\n" ++
      ("state two\n\x7b\n    timer()\n    \x7b\n    \x7d  // End of 'timer' event\n\n" ++
        "\x7d  // End of 'state two' state\n\n")
    step.Splices d (step.run d).draft ∧ d.document = front ++ back ∧
      (step.run d).draft.document = front ++ "        x();\n".toList ++ back := by
  intro d step front back
  have succeeds : (step.run d).answer = .ok .done := by decide +kernel
  exact ⟨edit_splices _ rfl succeeds, by decide +kernel, by decide +kernel⟩

end LslScript
