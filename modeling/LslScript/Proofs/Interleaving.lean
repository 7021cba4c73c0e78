import LslScript.Proofs.Resuming
import Mathlib.Data.Option.NAry

/-!
# Operations that take turns

Some operations are on functions and the others on states, and neither kind sees what the other does. A
draft is put together from one that only its functions are taken of and one that its states are taken of
(`Draft.beside`); an operation does to it what it does to one of the two. So the order between the two kinds
does not matter to a recipe (`Recipe.render_interleaved`).
-/

namespace LslScript

/-- The third list takes turns between the other two and keeps the order of each. -/
inductive Interleaved {α : Type} : List α → List α → List α → Prop
  | nil : Interleaved [] [] []
  | left {a : α} {as bs cs : List α} : Interleaved as bs cs → Interleaved (a :: as) bs (a :: cs)
  | right {b : α} {as bs cs : List α} : Interleaved as bs cs → Interleaved as (b :: bs) (b :: cs)

theorem Interleaved.left_only {α : Type} : ∀ as : List α, Interleaved as [] as
  | [] => .nil
  | _ :: as => .left (left_only as)

theorem Interleaved.right_only {α : Type} : ∀ bs : List α, Interleaved [] bs bs
  | [] => .nil
  | _ :: bs => .right (right_only bs)

/-! ## Edits beside each other -/

def Draft.beside (f s : Draft) : Draft := ⟨s.registry, ⟨f.script.functions, s.script.states⟩⟩

namespace Draft
variable {f s : Draft}

@[simp] theorem function?_beside (name : Text) :
    (f.beside s).script.function? name = f.script.function? name := rfl

@[simp] theorem state?_beside (name : StateName) :
    (f.beside s).script.state? name = s.script.state? name := rfl

@[simp] theorem states_beside : (f.beside s).script.states = s.script.states := rfl

@[simp] theorem registry_beside : (f.beside s).registry = s.registry := rfl

theorem defineFunction_beside (raw : Text) (ps : List Param) : (f.beside s).defineFunction raw ps =
    (f.defineFunction raw ps).map fun (name, f') => (name, f'.beside s) := by
  simp only [defineFunction, function?_beside]
  by_cases hi : isIdentifier raw.trim = true
  · by_cases hf : (f.script.function? raw.trim).isSome = true
    · simp [hi, hf, Except.map]
    · simp [hi, hf, Except.map, beside, Script.addFunction]
  · simp [hi, Except.map]

theorem appendToFunction_beside (name : Text) (ls : List Text) : (f.beside s).appendToFunction name ls =
    (f.appendToFunction name ls).map fun f' => f'.beside s := by
  simp only [appendToFunction, function?_beside]
  cases f.script.function? name with
  | none => rfl
  | some b =>
    by_cases he : b.ending = .sentinel
    · simp [he, Except.map, beside, Script.addFunctionLines]
    · simp [he, Except.map]

theorem addFunctionLine_beside (name content : Text) : (f.beside s).addFunctionLine name content =
    (f.addFunctionLine name content).map fun f' => f'.beside s := by
  unfold addFunctionLine
  cases bodyLines 1 content with
  | error fault => rfl
  | ok ls =>
    cases ls with
    | nil => rfl
    | cons l ls => exact appendToFunction_beside name (l :: ls)

theorem appendHandler_beside (name : StateName) (e : Event) (ps : List Param) :
    (f.beside s).appendHandler name e ps =
      (s.appendHandler name e ps).map fun (written, s') => (written, f.beside s') := by
  simp only [appendHandler, state?_beside, states_beside, registry_beside]
  by_cases ht : ((s.script.state? name).any fun b => b.handlers.any (·.event == e)) = true
  · simp [ht, Except.map]
  · by_cases hw : (s.script.states.isEmpty || !s.registry.isWritten name) = true
    · simp only [ht, hw]
      rfl
    · by_cases hs : (s.script.state? name).isSome = true
      · simp only [ht, hw, hs]
        rfl
      · simp only [ht, hw, hs]
        rfl

theorem registerEvent_beside (raw : Text) (e : Event) (idents : Option (List Text)) :
    (f.beside s).registerEvent raw e idents =
      (s.registerEvent raw e idents).map fun (log, s') => (log, f.beside s') := by
  have handler : ∀ name ps, ((f.beside s).appendHandler name e ps >>= fun (written, d) =>
        (.ok (if written && raw.isBlank then [.stateNotNamed] else [], d) :
          Except Fault (List LogRecord × Draft))) =
      ((s.appendHandler name e ps) >>= fun (written, d) =>
        .ok (if written && raw.isBlank then [.stateNotNamed] else [], d)).map
          fun (log, s') => (log, f.beside s') := by
    intro name ps
    rw [appendHandler_beside]
    cases s.appendHandler name e ps with
    | error fault => rfl
    | ok r => rfl
  unfold registerEvent
  cases StateName.ofText raw with
  | error fault => rfl
  | ok name =>
    cases idents with
    | none => exact handler name _
    | some idents =>
      cases h : e.bind idents with
      | error fault => simp only [h]; rfl
      | ok ps => simp only [h]; exact handler name ps

theorem addEventLine_beside (raw : Text) (e : Event) (content : Text) :
    (f.beside s).addEventLine raw e content = (s.addEventLine raw e content).map fun s' => f.beside s' := by
  unfold addEventLine
  cases bodyLines 2 content with
  | error fault => rfl
  | ok ls =>
    cases ls with
    | nil => rfl
    | cons l ls =>
      cases StateName.ofText raw with
      | error fault => rfl
      | ok name =>
        simp only [bind, Except.bind, state?_beside]
        cases s.script.state? name with
        | none => rfl
        | some state =>
          cases hb : state.handler? e with
          | none => simp [hb, Except.map]
          | some b =>
            by_cases he : b.ending = .sentinel
            · simp only [hb, he]
              rfl
            · simp [hb, he, Except.map]

end Draft

namespace Operation
variable {f s : Draft}

def onFunctions : Operation → Bool
  | function .. | functionLine .. | functionBlankLine _ => true
  | event .. | eventLine .. | call .. => false

theorem apply_beside_left {op : Operation} (h : op.onFunctions = true) :
    op.apply (f.beside s) = (op.apply f).map fun (log, f') => (log, f'.beside s) := by
  cases op with
  | function name groups =>
    simp only [apply, Draft.defineFunctionOfPairs, Draft.defineFunction_beside]
    cases (groups.flatten.mapM Param.ofPair).mapError Fault.param with
    | error fault => rfl
    | ok ps =>
      cases h : f.defineFunction name ps with
      | error fault => simp only [bind, Except.bind, h]; rfl
      | ok r => simp only [bind, Except.bind, h]; rfl
  | functionLine name line =>
    simp only [apply, Draft.addFunctionLine_beside]
    cases f.addFunctionLine name (Placeholder.encode line) <;> rfl
  | functionBlankLine name =>
    simp only [apply, Draft.addBlankLine, Draft.appendToFunction_beside]
    cases f.appendToFunction name [[]] <;> rfl
  | _ => cases h

theorem apply_beside_right {op : Operation} (h : op.onFunctions = false) :
    op.apply (f.beside s) = (op.apply s).map fun (log, s') => (log, f.beside s') := by
  cases op with
  | event state e idents => exact Draft.registerEvent_beside state e idents
  | eventLine state e line =>
    simp only [apply, Draft.addEventLine_beside]
    cases s.addEventLine state e (Placeholder.encode line) <;> rfl
  | call state e spec =>
    simp only [apply, Draft.addCall, Draft.addEventLine_beside]
    cases spec.toCall with
    | error fault => rfl
    | ok c =>
      cases h : s.addEventLine state e c.render with
      | error fault => simp only [bind, Except.bind, h]; rfl
      | ok s' => simp only [bind, Except.bind, h]; rfl
  | _ => cases h

/-! ## Runs -/

def finish? (d : Draft) (ops : List Operation) : Option Draft := (applyFrom 0 d ops).2.toOption

theorem toOption_applyFrom (i : Nat) (d : Draft) (ops : List Operation) :
    (applyFrom i d ops).2.toOption = finish? d ops := by
  rw [finish?, ← Nat.add_zero i, applyFrom_shift]
  cases (applyFrom 0 d ops).2 <;> rfl

theorem finish?_cons_ok {op : Operation} {d d' : Draft} {log : List LogRecord} (h : op.apply d = .ok (log, d'))
    (ops : List Operation) : finish? d (op :: ops) = finish? d' ops := by
  rw [finish?, applyFrom_cons_ok h, toOption_applyFrom]

theorem finish?_cons_error {op : Operation} {d : Draft} {fault : Fault} (h : op.apply d = .error fault)
    (ops : List Operation) : finish? d (op :: ops) = none := by
  rw [finish?, applyFrom_cons_error h]
  rfl

theorem finish?_interleaved {fs ss ops : List Operation} (h : Interleaved fs ss ops)
    (hf : ∀ op ∈ fs, op.onFunctions = true) (hs : ∀ op ∈ ss, op.onFunctions = false) (f s : Draft) :
    finish? (f.beside s) ops = Option.map₂ Draft.beside (finish? f fs) (finish? s ss) := by
  -- on whose turn it is; the draft of the other side waits unchanged
  induction h generalizing f s with
  | nil => rfl
  | @left op fs ss ops _ ih =>
    obtain ⟨hop, hf⟩ := List.forall_mem_cons.mp hf
    have whole := apply_beside_left (f := f) (s := s) hop
    cases ha : op.apply f with
    | error fault =>
      rw [ha] at whole
      rw [finish?_cons_error whole, finish?_cons_error ha, Option.map₂_none_left]
    | ok r =>
      obtain ⟨log, f'⟩ := r
      rw [ha] at whole
      rw [finish?_cons_ok whole, finish?_cons_ok ha, ih hf hs]
  | @right op fs ss ops _ ih =>
    obtain ⟨hop, hs⟩ := List.forall_mem_cons.mp hs
    have whole := apply_beside_right (f := f) (s := s) hop
    cases ha : op.apply s with
    | error fault =>
      rw [ha] at whole
      rw [finish?_cons_error whole, finish?_cons_error ha, Option.map₂_none_right]
    | ok r =>
      obtain ⟨log, s'⟩ := r
      rw [ha] at whole
      rw [finish?_cons_ok whole, finish?_cons_ok ha, ih hf hs]

/-- Operations on functions alone leave no state, and those on states alone no function. -/
theorem finish?_left_only {fs : List Operation} (hf : ∀ op ∈ fs, op.onFunctions = true) {d : Draft}
    (h : finish? .empty fs = some d) : d = d.beside .empty := by
  have run := finish?_interleaved (.left_only fs) hf nofun .empty .empty
  rw [h] at run
  exact Option.some.inj (h.symm.trans run)

theorem finish?_right_only {ss : List Operation} (hs : ∀ op ∈ ss, op.onFunctions = false) {d : Draft}
    (h : finish? .empty ss = some d) : d = Draft.empty.beside d := by
  have run := finish?_interleaved (.right_only ss) nofun hs .empty .empty
  rw [h] at run
  exact Option.some.inj (h.symm.trans run)

end Operation

theorem Draft.document_beside {f s : Draft} (hf : f = f.beside .empty) (hs : s = Draft.empty.beside s) :
    (f.beside s).document = f.document ++ s.document := by
  rw [hf, hs]
  simp [document, Script.text, Script.lines, beside, empty, Script.empty]

theorem toOption_eq_some_iff {ε α : Type} {x : Except ε α} {a : α} : x.toOption = some a ↔ x = .ok a := by
  cases x with
  | error e => simp [Except.toOption]
  | ok b => simp [Except.toOption]

namespace Recipe

theorem toOption_render (version : Text) (ops : List Operation) :
    (render ⟨version, ops⟩).2.toOption = (Operation.finish? .empty ops).map Draft.document := by
  unfold render build Operation.finish?
  simp only
  cases (Operation.applyFrom 0 .empty ops).2 <;> rfl

theorem toOption_render_interleaved (version : Text) {fs ss ops : List Operation} (h : Interleaved fs ss ops)
    (hf : ∀ op ∈ fs, op.onFunctions = true) (hs : ∀ op ∈ ss, op.onFunctions = false) :
    (render ⟨version, ops⟩).2.toOption =
      Option.map₂ (· ++ ·) (render ⟨version, fs⟩).2.toOption (render ⟨version, ss⟩).2.toOption := by
  simp only [toOption_render]
  have run := Operation.finish?_interleaved h hf hs .empty .empty
  rw [show Draft.empty.beside .empty = .empty from rfl] at run
  rw [run]
  cases hfd : Operation.finish? .empty fs with
  | none => rfl
  | some f =>
    cases hsd : Operation.finish? .empty ss with
    | none => rfl
    | some s =>
      exact congrArg some (Draft.document_beside (Operation.finish?_left_only hf hfd)
        (Operation.finish?_right_only hs hsd))

/-- Operations on functions and operations on states can take turns in any way: they succeed together if
each kind succeeds alone, and the document is that of the functions followed by that of the states. -/
theorem render_interleaved (version : Text) {fs ss ops : List Operation}
    (hf : ∀ op ∈ fs, op.onFunctions = true) (hs : ∀ op ∈ ss, op.onFunctions = false)
    (h : Interleaved fs ss ops) :
    ((∃ doc, (render ⟨version, ops⟩).2 = .ok doc) ↔
      (∃ front, (render ⟨version, fs⟩).2 = .ok front) ∧ ∃ back, (render ⟨version, ss⟩).2 = .ok back) ∧
    (∀ front back, (render ⟨version, fs⟩).2 = .ok front → (render ⟨version, ss⟩).2 = .ok back →
      (render ⟨version, ops⟩).2 = .ok (front ++ back)) ∧
    ∀ others, Interleaved fs ss others →
      (render ⟨version, others⟩).2.toOption = (render ⟨version, ops⟩).2.toOption := by
  have whole := toOption_render_interleaved version h hf hs
  refine ⟨⟨?_, ?_⟩, ?_, ?_⟩
  · rintro ⟨doc, hd⟩
    rw [hd] at whole
    obtain ⟨front, back, hfront, hback, -⟩ := Option.mem_map₂_iff.mp whole.symm
    exact ⟨⟨front, toOption_eq_some_iff.mp hfront⟩, back, toOption_eq_some_iff.mp hback⟩
  · rintro ⟨⟨front, hfront⟩, back, hback⟩
    rw [hfront, hback] at whole
    exact ⟨front ++ back, toOption_eq_some_iff.mp whole⟩
  · intro front back hfront hback
    rw [hfront, hback] at whole
    exact toOption_eq_some_iff.mp whole
  · intro others ho
    rw [whole, toOption_render_interleaved version ho hf hs]

/-- The block of the state is made before the function is, and its line comes after it. -/
theorem render_interleaved_in_turns :
    let fs : List Operation := [.function "f" [["integer a"]], .functionLine "f" "x(\"\x7b\");"]
    let ss : List Operation := [.event "" .timer none, .eventLine " default" .timer "y();"]
    let ops : List Operation := [.event "" .timer none, .function "f" [["integer a"]],
      .eventLine " default" .timer "y();", .functionLine "f" "x(\"\x7b\");"]
    let front : Text := "f(integer a)\n\x7b\n    x(__dquote____obrace____dquote__);\n" ++
      "\x7d  // End of 'f' function\n\n".toList
    let back : Text := "default\n\x7b\n    timer()\n    \x7b\n        y();\n" ++
      "    \x7d  // End of 'timer' event\n\n\x7d  // End of 'default' state\n\n".toList
    (∀ op ∈ fs, op.onFunctions = true) ∧ (∀ op ∈ ss, op.onFunctions = false) ∧ Interleaved fs ss ops ∧
      (render ⟨schema, fs⟩).2 = .ok front ∧ (render ⟨schema, ss⟩).2 = .ok back ∧
      (render ⟨schema, ops⟩).2 = .ok (front ++ back) := by
  intro fs ss ops front back
  have hf : ∀ op ∈ fs, op.onFunctions = true := by simp [fs, Operation.onFunctions]
  have hs : ∀ op ∈ ss, op.onFunctions = false := by simp [ss, Operation.onFunctions]
  have turns : Interleaved fs ss ops := .right (.left (.right (.left .nil)))
  have hfront : (render ⟨schema, fs⟩).2 = .ok front := by decide +kernel
  have hback : (render ⟨schema, ss⟩).2 = .ok back := by decide +kernel
  exact ⟨hf, hs, turns, hfront, hback, (render_interleaved schema hf hs turns).2.1 front back hfront hback⟩

end Recipe

end LslScript
