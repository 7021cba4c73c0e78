import LslScript.Proofs.Splices
import LslScript.Proofs.Traces

/-!
# Blocks that last

Steps that do not replace the document leave every sealed block sealed and under its name (`Step.frame`), so that
lines can be added to it whatever is done in between. A state is found by every spelling that was accepted for it, a
function by its name alone: not by this name with blanks around it (`Draft.answers_after`).
-/

namespace LslScript

section
variable {α : Type} {p q : α → Bool} {f : α → α} {P : α → Prop}

theorem exists_find?_modifyFirst (hq : ∀ a, q (f a) = q a) (hP : ∀ a, P a → P (f a)) : ∀ {l : List α},
    (∃ a, l.find? q = some a ∧ P a) → ∃ a, (modifyFirst p f l).find? q = some a ∧ P a
  | [], ⟨_, h, _⟩ => by cases h
  | b :: l, h => by
    unfold modifyFirst
    by_cases hp : p b = true
    · rw [if_pos hp]
      by_cases hb : q b = true
      · rw [List.find?_cons_of_pos hb] at h
        obtain ⟨a, ha, hPa⟩ := h
        cases ha
        exact ⟨f b, List.find?_cons_of_pos (by rw [hq, hb]), hP b hPa⟩
      · rw [List.find?_cons_of_neg hb] at h
        rwa [List.find?_cons_of_neg (by rwa [hq])]
    · rw [if_neg hp]
      by_cases hb : q b = true
      · rw [List.find?_cons_of_pos hb] at h ⊢
        exact h
      · rw [List.find?_cons_of_neg hb] at h ⊢
        exact exists_find?_modifyFirst hq hP h

theorem find?_modifyFirst (hp : ∀ a, p (f a) = p a) {a : α} : ∀ {l : List α}, l.find? p = some a →
    (modifyFirst p f l).find? p = some (f a)
  | b :: l, h => by
    unfold modifyFirst
    by_cases hb : p b = true
    · rw [List.find?_cons_of_pos hb] at h
      cases h
      rw [if_pos hb]
      exact List.find?_cons_of_pos (by rw [hp, hb])
    · rw [List.find?_cons_of_neg hb] at h
      rw [if_neg hb, List.find?_cons_of_neg hb]
      exact find?_modifyFirst hp h

theorem find?_concat {l : List α} {a : α} (hl : ∀ b ∈ l, q b = false) (ha : q a = true) :
    (l ++ [a]).find? q = some a := by
  have none : l.find? q = none := List.find?_eq_none.mpr fun b hb => by simp [hl b hb]
  rw [List.find?_append, none, List.find?_cons_of_pos ha]
  rfl

theorem exists_find?_append {l : List α} (h : ∃ a, l.find? q = some a ∧ P a) (more : List α) :
    ∃ a, (l ++ more).find? q = some a ∧ P a := by
  obtain ⟨a, ha, hPa⟩ := h
  refine ⟨a, ?_, hPa⟩
  rw [List.find?_append, ha]
  rfl

theorem exists_find?_cons {l : List α} (h : ∃ a, l.find? q = some a ∧ P a) {b : α} (hb : P b) :
    ∃ a, (b :: l).find? q = some a ∧ P a := by
  by_cases hq : q b = true
  · exact ⟨b, List.find?_cons_of_pos hq, hb⟩
  · rwa [List.find?_cons_of_neg hq]

end

/-! ## Sealed blocks -/

namespace Script

/-- The function that is found by a name is closed by its sentinel, so that lines can be put in front of it. -/
def SealedFunction (s : Script) (name : Text) : Prop := ∃ b, s.function? name = some b ∧ b.ending = .sentinel

def SealedHandler (s : Script) (name : StateName) (e : Event) : Prop :=
  ∃ state, s.state? name = some state ∧ ∃ b, state.handler? e = some b ∧ b.ending = .sentinel

structure Frame (s s' : Script) : Prop where
  functions : ∀ name, s.SealedFunction name → s'.SealedFunction name
  handlers : ∀ name e, s.SealedHandler name e → s'.SealedHandler name e

namespace Frame
variable {s s' s'' : Script}

theorem refl (s : Script) : s.Frame s := ⟨fun _ h => h, fun _ _ h => h⟩

theorem trans (h : s.Frame s') (h' : s'.Frame s'') : s.Frame s'' where
  functions name hs := h'.functions name (h.functions name hs)
  handlers name e hs := h'.handlers name e (h.handlers name e hs)

theorem addFunction (s : Script) (name : Text) (ps : List Param) :
    s.Frame (s.addFunction ⟨name, ps, [], .sentinel⟩) where
  functions _ h := exists_find?_cons h rfl
  handlers _ _ h := h

theorem addFunctionLines (s : Script) (name : Text) (ls : List Text) : s.Frame (s.addFunctionLines name ls) where
  functions _ h := by
    apply exists_find?_modifyFirst _ _ h
    · intro b
      rfl
    · intro b hb
      exact hb
  handlers _ _ h := h

theorem addState (s : Script) (b : StateDef) : s.Frame (s.addState b) where
  functions _ h := h
  handlers _ _ h := exists_find?_append h [b]

/-- A state that is changed keeps its name, so its sealed handlers are found if the change keeps them. -/
theorem modifyState (s : Script) (p : StateDef → Bool) {f : StateDef → StateDef} (hn : ∀ b, (f b).name = b.name)
    (hf : ∀ b e, (∃ a, b.handler? e = some a ∧ a.ending = .sentinel) →
      ∃ a, (f b).handler? e = some a ∧ a.ending = .sentinel) :
    s.Frame { s with states := modifyFirst p f s.states } where
  functions _ h := h
  handlers name e h := by
    apply exists_find?_modifyFirst _ _ h
    · intro b
      rw [hn]
    · intro b hb
      exact hf b e hb

theorem addHandler (s : Script) (name : StateName) (b : Handler) : s.Frame (s.addHandler name b) :=
  modifyState s _ (fun _ => rfl) fun _ _ h => exists_find?_append h [b]

theorem addEventLines (s : Script) (name : StateName) (e : Event) (ls : List Text) :
    s.Frame (s.addEventLines name e ls) := by
  apply modifyState s
  · intro b
    rfl
  · intro b e' h
    apply exists_find?_modifyFirst _ _ h
    · intro a
      rfl
    · intro a ha
      exact ha

end Frame

end Script

/-! ## What steps add -/

namespace Draft
variable {d d' : Draft} {raw name line : Text} {e : Event} {ps : List Param} {ls : List Text}

inductive Addition (d : Draft) : Draft → Prop
  | nothing : Addition d d
  | declare (name : StateName) : Addition d { d with registry := d.registry.declare name }
  | eventLines (name : StateName) (e : Event) (ls : List Text) :
    Addition d { d with script := d.script.addEventLines name e ls }
  | function (name : Text) (ps : List Param) :
    Addition d { d with script := d.script.addFunction ⟨name, ps, [], .sentinel⟩ }
  | functionLines (name : Text) (ls : List Text) :
    Addition d { d with script := d.script.addFunctionLines name ls }

theorem addition_addEventLine (h : d.addEventLine raw e line = .ok d') : d.Addition d' := by
  obtain ⟨ls, -, ⟨-, rfl⟩ | ⟨-, name, _, _, -, -, -, -, rfl⟩⟩ := addEventLine_ok h
  · exact .nothing
  · exact .eventLines name e ls

theorem addition_defineFunction (h : d.defineFunction raw ps = .ok (name, d')) : d.Addition d' := by
  obtain ⟨-, -, -, rfl⟩ := defineFunction_ok h
  exact .function name ps

theorem addition_appendToFunction (h : d.appendToFunction name ls = .ok d') : d.Addition d' := by
  obtain ⟨-, -, -, rfl⟩ := appendToFunction_ok h
  exact .functionLines name ls

theorem addition_addFunctionLine (h : d.addFunctionLine name line = .ok d') : d.Addition d' := by
  obtain ⟨ls, -, ⟨-, rfl⟩ | ⟨-, ha⟩⟩ := addFunctionLine_ok h
  · exact .nothing
  · exact addition_appendToFunction ha

theorem Addition.frame (h : d.Addition d') : d.script.Frame d'.script := by
  cases h with
  | nothing => exact .refl _
  | declare name => exact .refl _
  | eventLines name e ls => exact .addEventLines _ name e ls
  | function name ps => exact .addFunction _ name ps
  | functionLines name ls => exact .addFunctionLines _ name ls

theorem frame_registerEvent {idents : Option (List Text)} {log : List LogRecord}
    (h : d.registerEvent raw e idents = .ok (log, d')) : d.script.Frame d'.script := by
  obtain ⟨name, ps, written, -, -, ha, -⟩ := registerEvent_ok h
  obtain ⟨-, ⟨-, -, rfl⟩ | ⟨-, -, -, rfl⟩⟩ := appendHandler_ok ha
  · exact .addState _ _
  · exact .addHandler _ _ _

end Draft

namespace Step
variable {d : Draft} {step : Step}

/-- Whether a step puts another document in place of the one that is there. -/
def replaces : Step → Bool
  | setDocument _ => true
  | reset => true
  | _ => false

structure Adds (step : Step) (d : Draft) : Prop where
  log : (step.run d).log = []
  draft : d.Addition (step.run d).draft

theorem adds_ofEdit {x : Except Fault (Answer × List LogRecord × Draft)} (hr : step.run d = .ofEdit d x)
    (h : ∀ answer log d', x = .ok (answer, log, d') → log = [] ∧ d.Addition d') : step.Adds d := by
  cases x with
  | error fault => exact ⟨by rw [hr]; rfl, by rw [hr]; exact .nothing⟩
  | ok result =>
    obtain ⟨answer, log, d'⟩ := result
    obtain ⟨hl, hd⟩ := h answer log d' rfl
    exact ⟨by rw [hr]; exact hl, by rw [hr]; exact hd⟩

theorem adds_map {α : Type} {x : Except Fault α} {answer : α → Answer} {draft : α → Draft}
    (hr : step.run d = .ofEdit d (x.map fun a => (answer a, [], draft a)))
    (h : ∀ a, x = .ok a → d.Addition (draft a)) : step.Adds d := by
  apply adds_ofEdit hr
  intro _ _ _ hx
  obtain ⟨a, ha, he⟩ := map_eq_ok_iff.mp hx
  cases he
  exact ⟨rfl, h a ha⟩

theorem run_cases (d : Draft) (h : step.replaces = false) : step.Adds d ∨ ∃ raw e idents log d',
    step = .registerEvent raw e idents ∧ d.registerEvent raw e idents = .ok (log, d') ∧
      step.run d = ⟨.ok .done, log, d'⟩ := by
  cases step with
  | registerEvent raw e idents =>
    cases hr : d.registerEvent raw e idents with
    | error fault =>
      left
      apply adds_ofEdit rfl
      intro _ _ _ hx
      rw [hr] at hx
      cases hx
    | ok result =>
      right
      refine ⟨raw, e, idents, result.1, result.2, rfl, hr, ?_⟩
      rw [run, hr]
      rfl
  | declareState state =>
    left
    apply adds_map rfl
    intro result hx
    obtain ⟨name, d'⟩ := result
    obtain ⟨-, rfl⟩ := Draft.declareState_ok hx
    exact .declare name
  | addEventLine state e line => exact .inl (adds_map rfl fun _ hx => Draft.addition_addEventLine hx)
  | addCall state e call => exact .inl (adds_map rfl fun _ hx => Draft.addition_addEventLine hx)
  | defineFunction name params =>
    left
    apply adds_ofEdit rfl
    intro _ _ _ hx
    obtain ⟨ps, -, hx⟩ := bind_ok_iff.mp hx
    obtain ⟨⟨f, d₁⟩, hf, he⟩ := bind_ok_iff.mp hx
    cases he
    exact ⟨rfl, Draft.addition_defineFunction hf⟩
  | defineFunctionOfPairs name groups =>
    left
    apply adds_map rfl
    intro result hx
    obtain ⟨f, d'⟩ := result
    obtain ⟨ps, -, hf⟩ := Draft.defineFunctionOfPairs_ok hx
    exact Draft.addition_defineFunction hf
  | addFunctionLine name line => exact .inl (adds_map rfl fun _ hx => Draft.addition_addFunctionLine hx)
  | addBlankLine name => exact .inl (adds_map rfl fun _ hx => Draft.addition_appendToFunction hx)
  | setDocument text => cases h
  | reset => cases h
  -- the others only ask
  | _ => exact .inl ⟨rfl, .nothing⟩

theorem frame (d : Draft) (h : step.replaces = false) : d.script.Frame (step.run d).draft.script := by
  rcases run_cases d h with hadds | ⟨raw, e, idents, log, d', -, hr, run⟩
  · exact hadds.draft.frame
  · rw [run]
    exact Draft.frame_registerEvent hr

end Step

namespace Draft

theorem after_append (xs ys : List Step) (d : Draft) : d.after (xs ++ ys) = (d.after xs).after ys := by
  induction xs generalizing d with
  | nil => rfl
  | cons step xs ih => exact ih (step.run d).draft

theorem frame_after {steps : List Step} (h : ∀ step ∈ steps, step.replaces = false) (d : Draft) :
    d.script.Frame (d.after steps).script := by
  induction steps generalizing d with
  | nil => exact .refl _
  | cons step steps ih =>
    obtain ⟨hs, hsteps⟩ := List.forall_mem_cons.mp h
    exact (Step.frame d hs).trans (ih hsteps _)

variable {d d' : Draft} {raw name line : Text} {e : Event} {ps : List Param} {ls : List Text}

theorem WellFormed.sealedHandler_of_registerEvent (hd : d.WellFormed) {idents : Option (List Text)}
    {log : List LogRecord} (h : d.registerEvent raw e idents = .ok (log, d')) :
    ∃ name, StateName.ofText raw = .ok name ∧ d'.script.SealedHandler name e := by
  obtain ⟨name, ps, written, hn, -, ha, -⟩ := registerEvent_ok h
  refine ⟨name, hn, ?_⟩
  obtain ⟨fresh, ⟨-, hw, rfl⟩ | ⟨-, -, hs, rfl⟩⟩ := appendHandler_ok ha
  · have others : ∀ b ∈ d.script.states, (b.name == name) = false := by
      intro b hb
      rw [beq_eq_false_iff_ne]
      rintro rfl
      exact hd.not_mem_stateNames hw (List.mem_map_of_mem hb)
    have handler : StateDef.handler? ⟨name, [⟨e, ps, [], .sentinel⟩], .sentinel⟩ e = some ⟨e, ps, [], .sentinel⟩ :=
      List.find?_cons_of_pos (by simp)
    exact ⟨_, find?_concat others (by simp), _, handler, rfl⟩
  · obtain ⟨state, found⟩ := Option.isSome_iff_exists.mp hs
    have others : ∀ b ∈ state.handlers, (b.event == e) = false := by
      intro b hb
      rw [beq_eq_false_iff_ne]
      rintro rfl
      exact fresh state found (List.mem_map_of_mem hb)
    exact ⟨_, find?_modifyFirst (by intro; rfl) found, _, find?_concat others (by simp), rfl⟩

theorem sealedFunction_of_defineFunction (h : d.defineFunction raw ps = .ok (name, d')) :
    name = raw.trim ∧ d'.script.SealedFunction name := by
  obtain ⟨hn, -, -, rfl⟩ := defineFunction_ok h
  exact ⟨hn, _, List.find?_cons_of_pos (by simp), rfl⟩

/-! ## Lines for sealed blocks -/

theorem exists_bodyLines (depth : Nat) (hb : line.isBlank = false) (hl : Placeholder.firstDelimiter? line = none) :
    ∃ l ls, bodyLines depth line = .ok (l :: ls) := by
  have lines : bodyLines depth line = .ok _ := bodyLines_eq_ok_iff.mpr (.inr ⟨hb, hl, rfl⟩)
  cases h : Text.lines (indent depth ++ line) with
  | nil =>
    rw [h] at lines
    rw [isBlank_of_bodyLines lines] at hb
    cases hb
  | cons l ls => exact ⟨l, ls, lines.trans (by rw [h])⟩

theorem addEventLine_sealed {name : StateName} (hn : StateName.ofText raw = .ok name)
    (hs : d.script.SealedHandler name e) (hl : Placeholder.firstDelimiter? line = none) :
    ∃ d', d.addEventLine raw e line = .ok d' := by
  cases hb : line.isBlank with
  | true => exact ⟨d, d.addEventLine_blank raw e hb⟩
  | false =>
    obtain ⟨l, ls, lines⟩ := exists_bodyLines 2 hb hl
    obtain ⟨state, hstate, b, hhandler, ending⟩ := hs
    refine ⟨{ d with script := d.script.addEventLines name e (l :: ls) }, ?_⟩
    simp [addEventLine, lines, hn, hstate, hhandler, ending, bind, Except.bind, pure, Except.pure]

theorem appendToFunction_sealed (hs : d.script.SealedFunction name) (ls : List Text) :
    d.appendToFunction name ls = .ok { d with script := d.script.addFunctionLines name ls } := by
  obtain ⟨b, found, ending⟩ := hs
  rw [appendToFunction, found]
  exact if_pos ending

theorem appendToFunction_unknown (hn : name ∉ d.script.functions.map (·.name)) (ls : List Text) :
    d.appendToFunction name ls = .error (.noFunction name) := by
  have missing : d.script.function? name = none := by
    cases hf : d.script.function? name with
    | none => rfl
    | some b => exact absurd (Script.function?_isSome_iff.mp (by rw [hf]; rfl)) hn
  rw [appendToFunction, missing]

theorem exists_addFunctionLine (d : Draft) (name : Text) (hb : line.isBlank = false)
    (hl : Placeholder.firstDelimiter? line = none) :
    ∃ ls, d.addFunctionLine name line = d.appendToFunction name ls := by
  obtain ⟨l, ls, lines⟩ := exists_bodyLines 1 hb hl
  refine ⟨l :: ls, ?_⟩
  rw [addFunctionLine, lines]
  rfl

end Draft

/-- Functions are named by identifiers, so no name has blanks around it. -/
theorem Draft.WellFormed.trim_of_mem {d : Draft} (hd : d.WellFormed) {name : Text}
    (h : name ∈ d.script.functions.map (·.name)) : name.trim = name := by
  obtain ⟨b, hb, rfl⟩ := List.mem_map.mp h
  exact Text.trim_of_isIdentifier (hd.script.functions b hb).name

theorem Draft.WellFormed.answer_appendToFunction {d : Draft} (hd : d.WellFormed) {name spelling : Text}
    (hs : d.script.SealedFunction name) (ht : spelling.trim = name) (ls : List Text) :
    (d.appendToFunction spelling ls).map (fun _ => Answer.done) =
      if spelling = name then .ok .done else .error (.noFunction spelling) := by
  by_cases he : spelling = name
  · rw [if_pos he, he, appendToFunction_sealed hs]
    rfl
  · have unknown : spelling ∉ d.script.functions.map (·.name) := by
      intro hm
      exact he ((hd.trim_of_mem hm).symm.trans ht)
    rw [if_neg he, appendToFunction_unknown unknown]
    rfl

/-! ## Answers -/

theorem Outcome.answer_map {d : Draft} {α : Type} (x : Except Fault α) (f : α → Answer × List LogRecord × Draft) :
    (Outcome.ofEdit d (x.map f)).answer = x.map fun a => (f a).1 := by
  cases x <;> rfl

namespace Step

/-- The spelling of a name that a function is defined under. -/
def defines? : Step → Option Text
  | defineFunction name _ => some name
  | defineFunctionOfPairs name _ => some name
  | _ => none

theorem sealedHandler_of_done {d : Draft} (hd : d.WellFormed) {raw : Text} {e : Event} {idents : Option (List Text)}
    (h : ((registerEvent raw e idents).run d).answer = .ok .done) :
    ∃ name, StateName.ofText raw = .ok name ∧
      ((registerEvent raw e idents).run d).draft.script.SealedHandler name e := by
  obtain ⟨⟨log, d'⟩, hr, hd'⟩ := Outcome.ofEdit_map_ok h
  rw [run, hd']
  exact hd.sealedHandler_of_registerEvent hr

theorem sealedFunction_of_answer {d : Draft} {step : Step} {raw name : Text} (hs : step.defines? = some raw)
    (h : (step.run d).answer = .ok (.function name)) :
    name = raw.trim ∧ (step.run d).draft.script.SealedFunction name := by
  cases step with
  | defineFunction spelling params =>
    cases hs
    obtain ⟨log, d', hx, hd'⟩ := Outcome.ofEdit_ok h
    obtain ⟨ps, -, hx⟩ := bind_ok_iff.mp hx
    obtain ⟨⟨f, d₁⟩, hf, he⟩ := bind_ok_iff.mp hx
    cases he
    rw [run, hd']
    exact Draft.sealedFunction_of_defineFunction hf
  | defineFunctionOfPairs spelling groups =>
    cases hs
    obtain ⟨log, d', hx, hd'⟩ := Outcome.ofEdit_ok h
    obtain ⟨⟨f, d₁⟩, hf, he⟩ := map_eq_ok_iff.mp hx
    cases he
    obtain ⟨ps, -, hf⟩ := Draft.defineFunctionOfPairs_ok hf
    rw [run, hd']
    exact Draft.sealedFunction_of_defineFunction hf
  | _ => cases hs

end Step

namespace Draft

/-- Whatever is done in between short of replacing the document, an event takes lines under every spelling of the
name of its state, and a function under its name alone. -/
theorem answers_after (past : List Step) {later : List Step} (h : ∀ step ∈ later, step.replaces = false) :
    (∀ raw e idents, ((Step.registerEvent raw e idents).run (empty.after past)).answer = .ok .done →
      ∀ spelling line, StateName.ofText spelling = StateName.ofText raw → Placeholder.firstDelimiter? line = none →
        ((Step.addEventLine spelling e line).run
          (empty.after (past ++ .registerEvent raw e idents :: later))).answer = .ok .done) ∧
    ∀ (step : Step) (raw name : Text), step.defines? = some raw →
      (step.run (empty.after past)).answer = .ok (.function name) →
      let d := empty.after (past ++ step :: later)
      name = raw.trim ∧ ∀ spelling : Text, spelling.trim = name →
        (∀ line, Placeholder.firstDelimiter? line = none → ((Step.addFunctionLine spelling line).run d).answer =
          if spelling = name ∨ line.isBlank = true then .ok .done else .error (.noFunction spelling)) ∧
        ((Step.addBlankLine spelling).run d).answer =
          if spelling = name then .ok .done else .error (.noFunction spelling) := by
  constructor
  · intro raw e idents done spelling line same hl
    obtain ⟨name, hn, begun⟩ := Step.sealedHandler_of_done (wellFormed_empty.after past) done
    rw [after_append]
    -- the handler may get more lines in between, but it stays closed by its sentinel
    have lasts := (frame_after h _).handlers name e begun
    obtain ⟨d', hd⟩ := addEventLine_sealed (same.trans hn) lasts hl
    rw [Step.run, Outcome.answer_map]
    exact congrArg _ hd
  · intro step raw name hs answer d
    obtain ⟨trimmed, begun⟩ := Step.sealedFunction_of_answer hs answer
    have well : d.WellFormed := wellFormed_empty.after _
    have lasts : d.script.SealedFunction name := by
      rw [show d = _ from after_append ..]
      exact (frame_after h _).functions name begun
    refine ⟨trimmed, fun spelling ht => ⟨fun line hl => ?_, ?_⟩⟩
    · rw [Step.run, Outcome.answer_map]
      cases hb : line.isBlank with
      | true =>
        rw [addFunctionLine_blank _ _ hb]
        simp [Except.map]
      | false =>
        obtain ⟨ls, lines⟩ := exists_addFunctionLine d spelling hb hl
        rw [lines, well.answer_appendToFunction lasts ht]
        simp
    · rw [Step.run, Outcome.answer_map]
      exact well.answer_appendToFunction lasts ht [[]]

/-- Spellings with blanks around the name, and steps in between that are refused or touch the same blocks. -/
theorem answers_after_spelled :
    let past : List Step := [.defineFunction "g" []]
    let event : Step := .registerEvent "\ttwo" .timer none
    let function : Step := .defineFunctionOfPairs " f " [["integer n"]]
    let later : List Step := [.registerEvent "two" .timer none, .addEventLine "two " .timer "x;\n",
      .declareState "f", .defineFunction "h" [], .addFunctionLine "f" "x;"]
    (∀ step ∈ later, step.replaces = false) ∧
      ((Step.addEventLine "two\n" .timer "y;").run (empty.after (past ++ event :: later))).answer = .ok .done ∧
      ((Step.addFunctionLine "f" "y;").run (empty.after (past ++ function :: later))).answer = .ok .done ∧
      ((Step.addBlankLine "f").run (empty.after (past ++ function :: later))).answer = .ok .done := by
  intro past event function later
  have kept : ∀ step ∈ later, step.replaces = false := by decide
  have events := (answers_after past kept).1 "\ttwo" .timer none (by decide +kernel)
  have functions := (answers_after past kept).2 function " f " "f" rfl (by decide +kernel)
  obtain ⟨lines, blank⟩ := functions.2 "f" (by decide +kernel)
  exact ⟨kept, events "two\n" "y;" (by decide +kernel) rfl, lines "y;" rfl, blank⟩

/-- A function that was defined under a spelling with blanks around its name is not found by this spelling. -/
theorem noFunction_of_defined_spelling :
    let function : Step := .defineFunctionOfPairs " f " []
    (function.run empty).answer = .ok (.function "f") ∧ Placeholder.firstDelimiter? "x;" = none ∧
      ((Step.addFunctionLine " f " "x;").run (empty.after [function])).answer = .error (.noFunction " f ") ∧
      ((Step.addBlankLine " f ").run (empty.after [function])).answer = .error (.noFunction " f ") := by
  decide +kernel

end Draft

end LslScript
