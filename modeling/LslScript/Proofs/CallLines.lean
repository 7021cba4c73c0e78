import LslScript.Proofs.Calls
import LslScript.Proofs.Generated

/-!
# Calls as lines

Content that is one line is put at the end of a handler's body and nowhere else (`GainsLine`). A typed call is
always one line, so inserting it into a handler that its sentinel closes succeeds (`Draft.addCall_gains_line`).
-/

namespace LslScript

/-- The line that a typed call becomes in a body. -/
theorem Call.exists_bodyLine {call : Call} (h : call.isTyped = true) (depth : Nat) :
    ∃ line, bodyLines depth call.render = .ok [line] ∧
      line ++ ['\n'] = Text.terminated (indent depth ++ call.render) := by
  obtain ⟨statement, inline, blank, rendered⟩ := exists_statement h
  have newline : '\n' ∉ indent depth ++ statement := by
    simp [not_mem_indent, inline.newline_not_mem]
  have one : call.render.isBlank = false ∧
      Text.lines (indent depth ++ call.render) = [indent depth ++ statement] := by
    rcases rendered with hr | hr
    · rw [hr]
      exact ⟨blank, Text.lines_of_not_mem newline⟩
    · rw [hr, ← List.append_assoc, Text.lines_append_newline newline]
      simp [blank]
  refine ⟨indent depth ++ statement, ?_, ?_⟩
  · rw [bodyLines_eq_ok_iff]
    exact Or.inr ⟨one.1, (plain_render h).firstDelimiter?_eq_none, one.2.symm⟩
  · rw [← Text.unlines_lines, one.2, Text.unlines_cons, Text.unlines_nil]

namespace Draft
variable {d : Draft} {raw content line : Text} {name : StateName} {e : Event} {state : StateDef} {b : Handler}

/-- The document of `d'` is that of `d` with one line more: the last line in the body of the handler that was `b`,
right before its sentinel. -/
def GainsLine (d d' : Draft) (name : StateName) (e : Event) (b : Handler) (line : Text) : Prop :=
  ∃ before after,
    d.script.BlockAt (.handler name e) before b.opened (Sentinel.event e :: after) ∧
    d'.script.BlockAt (.handler name e) before (Handler.opened { b with body := b.body ++ [line] })
      (Sentinel.event e :: after) ∧
    Text.lines d.document = before ++ b.opened ++ Sentinel.event e :: after ∧
    Text.lines d'.document = before ++ b.opened ++ line :: Sentinel.event e :: after

theorem addEventLine_of_bodyLines {l : Text} {ls : List Text} (hl : bodyLines 2 content = .ok (l :: ls))
    (hn : StateName.ofText raw = .ok name) (hs : d.script.state? name = some state)
    (hb : state.handler? e = some b) (he : b.ending = .sentinel) :
    d.addEventLine raw e content = .ok { d with script := d.script.addEventLines name e (l :: ls) } := by
  unfold addEventLine
  rw [hl]
  simp only [bind, Except.bind, hn, hs, hb, if_pos he]
  rfl

theorem WellFormed.gainsLine_addEventLines (hd : d.WellFormed) (hs : d.script.state? name = some state)
    (hb : state.handler? e = some b) (he : b.ending = .sentinel) (hn : '\n' ∉ line) (hp : line.Plain) :
    d.GainsLine { d with script := d.script.addEventLines name e [line] } name e b line := by
  obtain ⟨before, after, old, changed⟩ := Script.blockAt_addEventLines hs hb
  have hw : (d.script.addEventLines name e [line]).WellFormed :=
    hd.script.addEventLines name e (List.forall_mem_singleton.mpr ⟨hn, hp⟩)
  rw [Handler.closing_of_sentinel hb he] at old changed
  have new := changed [line]
  refine ⟨before, after, old, new, ?_, ?_⟩
  · rw [document, Script.lines_text hd.script (by simp [old.lines]), old.lines]
  · rw [document, Script.lines_text hw (by simp [new.lines]), new.lines]
    simp

/-- Typed calls are inserted as one line. -/
theorem addCall_gains_line (steps : List Step) {call : Call} (hn : StateName.ofText raw = .ok name)
    (hs : (empty.after steps).script.state? name = some state) (hb : state.handler? e = some b)
    (he : b.ending = .sentinel) (hc : call.isTyped = true) :
    ∃ d' line, (Step.addCall raw e call).run (empty.after steps) = ⟨.ok .done, [], d'⟩ ∧
      (empty.after steps).GainsLine d' name e b line ∧ line.Plain ∧
      line ++ ['\n'] = Text.terminated (indent 2 ++ call.render) := by
  obtain ⟨line, one, text⟩ := Call.exists_bodyLine hc 2
  obtain ⟨newline, plain⟩ := not_mem_of_bodyLines one line (List.mem_singleton_self line)
  have added := addEventLine_of_bodyLines one hn hs hb he
  refine ⟨_, line, ?_, (wellFormed_empty.after steps).gainsLine_addEventLines hs hb he newline plain, plain, text⟩
  rw [Step.run, addCall, added]
  rfl

/-- A message with a newline and with delimiters, for the second of two handlers of the same event. -/
theorem addCall_gains_line_second_state :
    let steps : List Step :=
      [.registerEvent "" .timer none, .registerEvent "two" .timer none, .addEventLine "two" .timer "x();"]
    let call : Call := .listen (-1) "\x7b\n\"" ⟨""⟩ "\\__cbrace__" true
    let b : Handler := ⟨.timer, [], ["        x();"], .sentinel⟩
    ∃ d' line, (Step.addCall " two" .timer call).run (empty.after steps) = ⟨.ok .done, [], d'⟩ ∧
      (empty.after steps).GainsLine d' ⟨"two"⟩ .timer b line ∧ line.Plain ∧
      line ++ ['\n'] = Text.terminated (indent 2 ++ call.render) := by
  intro steps call b
  have found : (empty.after steps).script.state? ⟨"two"⟩ = some ⟨⟨"two"⟩, [b], .sentinel⟩ := by decide +kernel
  exact addCall_gains_line steps (by decide +kernel) found (by decide) rfl rfl

end Draft

end LslScript
