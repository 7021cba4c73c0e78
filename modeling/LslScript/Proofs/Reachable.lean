import LslScript.Proofs.Edits
import LslScript.Draft.Step

/-!
# Reachable drafts

`Change` lists what one step can do to a draft. Every change keeps drafts well-formed: the script is,
and the registry knows exactly the states that have a block. So this holds of every draft that steps
lead to from the empty one, whichever of them are refused.
-/

namespace LslScript

theorem map_eq_ok_iff {ε α β : Type} {x : Except ε α} {f : α → β} {b : β} :
    x.map f = .ok b ↔ ∃ a, x = .ok a ∧ f a = b := by
  cases x with
  | ok a => simp [Except.map]
  | error e => simp [Except.map]

namespace Draft

/-- What a step can do to a draft, with the checks that it passed. The texts that it may load are those
in `loads`. -/
inductive Change (loads : Text → Prop) (d : Draft) : Draft → Prop
  | nothing : Change loads d d
  | declare (name : StateName) : Change loads d { d with registry := d.registry.declare name }
  | addState {name : StateName} {e : Event} {ps : List Param} : isIdentifier name.text = true →
    ps.map (·.type) = e.types → (∀ p ∈ ps, isIdentifier p.ident = true) →
    d.script.states = [] ∨ d.registry.isWritten name = false →
      Change loads d ⟨d.registry.markWritten name, d.script.addState ⟨name, [⟨e, ps, [], .sentinel⟩], .sentinel⟩⟩
  | addHandler {name : StateName} {e : Event} {ps : List Param} :
    ps.map (·.type) = e.types → (∀ p ∈ ps, isIdentifier p.ident = true) →
    (∀ b, d.script.state? name = some b → e ∉ b.handlers.map (·.event)) →
      Change loads d { d with script := d.script.addHandler name ⟨e, ps, [], .sentinel⟩ }
  | addEventLines (name : StateName) (e : Event) {ls : List Text} :
    (∀ l ∈ ls, '\n' ∉ l ∧ ∀ c : Delimiter, c.char ∉ l) →
      Change loads d { d with script := d.script.addEventLines name e ls }
  | addFunction {name : Text} {ps : List Param} : isIdentifier name = true →
    (∀ p ∈ ps, isIdentifier p.ident = true) → name ∉ d.script.functions.map (·.name) →
      Change loads d { d with script := d.script.addFunction ⟨name, ps, [], .sentinel⟩ }
  | addFunctionLines (name : Text) {ls : List Text} :
    (∀ l ∈ ls, '\n' ∉ l ∧ ∀ c : Delimiter, c.char ∉ l) →
      Change loads d { d with script := d.script.addFunctionLines name ls }
  | load {s : Script} {t : Text} : loads t → Script.ofText t = .ok s → Change loads d ⟨.ofScript s, s⟩
  | reset : Change loads d .empty

variable {loads : Text → Prop} {d d' : Draft}

theorem change_registerEvent {raw : Text} {e : Event} {idents : Option (List Text)}
    {log : List LogRecord}
    (h : d.registerEvent raw e idents = .ok (log, d')) : d.Change loads d' := by
  obtain ⟨name, ps, written, hn, hps, ha, _⟩ := registerEvent_ok h
  obtain ⟨ht, hi⟩ := Event.paramsFor_ok hps
  obtain ⟨hfresh, ⟨_, hw, rfl⟩ | ⟨_, _, _, rfl⟩⟩ := appendHandler_ok ha
  · exact .addState (StateName.isIdentifier_of_ofText hn) ht hi hw
  · exact .addHandler ht hi hfresh

theorem change_addEventLine {raw content : Text} {e : Event}
    (h : d.addEventLine raw e content = .ok d') : d.Change loads d' := by
  obtain ⟨ls, hls, ⟨_, rfl⟩ | ⟨_, name, _, _, _, _, _, _, rfl⟩⟩ := addEventLine_ok h
  · exact .nothing
  · exact .addEventLines name e (not_mem_of_bodyLines hls)

theorem change_defineFunction {raw name : Text} {ps : List Param}
    (hp : ∀ p ∈ ps, isIdentifier p.ident = true)
    (h : d.defineFunction raw ps = .ok (name, d')) : d.Change loads d' := by
  obtain ⟨_, hi, hn, rfl⟩ := defineFunction_ok h
  exact .addFunction hi hp hn

theorem change_appendToFunction {name : Text} {ls : List Text}
    (hl : ∀ l ∈ ls, '\n' ∉ l ∧ ∀ c : Delimiter, c.char ∉ l)
    (h : d.appendToFunction name ls = .ok d') : d.Change loads d' := by
  obtain ⟨_, _, _, rfl⟩ := appendToFunction_ok h
  exact .addFunctionLines name hl

end Draft

/-- The draft an outcome leaves is the one before, or that of the edit that succeeded. -/
theorem Outcome.change_ofEdit {loads : Text → Prop} {d : Draft} {x : Except Fault (Answer × List LogRecord × Draft)}
    (h : ∀ answer log d', x = .ok (answer, log, d') → d.Change loads d') :
    d.Change loads (Outcome.ofEdit d x).draft := by
  cases x with
  | error fault => exact .nothing
  | ok result => exact h result.1 result.2.1 result.2.2 rfl

theorem Outcome.change_map {loads : Text → Prop} {d : Draft} {α : Type} {x : Except Fault α}
    {f : α → Answer × List LogRecord × Draft}
    (h : ∀ a, x = .ok a → d.Change loads (f a).2.2) : d.Change loads (Outcome.ofEdit d (x.map f)).draft := by
  apply Outcome.change_ofEdit
  intro answer log d' he
  obtain ⟨a, ha, hf⟩ := map_eq_ok_iff.mp he
  have hc := h a ha
  rwa [hf] at hc

theorem isIdentifier_of_named {pairs : List (ValueType × Text)} {ps : List Param}
    (h : List.Forall₂ (fun pair p => Param.named pair.1 pair.2 = .ok p) pairs ps) :
    ∀ p ∈ ps, isIdentifier p.ident = true := by
  induction h with
  | nil => simp
  | cons hp _ ih =>
    obtain ⟨hi, rfl⟩ := Param.named_eq_ok_iff.mp hp
    exact List.forall_mem_cons.mpr ⟨hi, ih⟩

def Step.Loads (step : Step) (t : Text) : Prop := step = .setDocument t

theorem Step.change (d : Draft) (step : Step) : d.Change step.Loads (step.run d).draft := by
  cases step with
  | declareState state =>
    apply Outcome.change_map
    intro ⟨name, d'⟩ h
    obtain ⟨_, rfl⟩ := Draft.declareState_ok h
    exact .declare name
  | registerEvent state event idents =>
    exact Outcome.change_map fun ⟨log, d'⟩ h => Draft.change_registerEvent h
  | addEventLine state event content => exact Outcome.change_map fun d' h => Draft.change_addEventLine h
  | addCall state event call => exact Outcome.change_map fun d' h => Draft.change_addEventLine h
  | defineFunction name params =>
    apply Outcome.change_ofEdit
    intro _ _ d' h
    obtain ⟨ps, hps, h⟩ := bind_ok_iff.mp h
    obtain ⟨⟨f, d₁⟩, hd, he⟩ := bind_ok_iff.mp h
    cases he
    rw [mapError_eq_ok_iff, mapM_eq_ok_iff] at hps
    exact Draft.change_defineFunction (isIdentifier_of_named hps) hd
  | defineFunctionOfPairs name groups =>
    apply Outcome.change_map
    intro ⟨f, d'⟩ h
    obtain ⟨ps, hps, hd⟩ := Draft.defineFunctionOfPairs_ok h
    exact Draft.change_defineFunction (Param.isIdentifier_of_pairs hps) hd
  | addFunctionLine name content =>
    apply Outcome.change_map
    intro d' h
    obtain ⟨ls, hls, ⟨_, rfl⟩ | ⟨_, hd⟩⟩ := Draft.addFunctionLine_ok h
    · exact .nothing
    · exact Draft.change_appendToFunction (not_mem_of_bodyLines hls) hd
  | addBlankLine name => exact Outcome.change_map fun d' h => Draft.change_appendToFunction (by simp) h
  | setDocument text =>
    apply Outcome.change_map
    intro ⟨r, s⟩ h
    obtain ⟨hs, hr⟩ := Draft.ofDocument_eq_ok_iff.mp h
    simp only at hs hr
    subst hr
    exact .load rfl hs
  | reset => exact .reset
  -- the others only ask
  | _ => exact .nothing

/-! ## Well-formed drafts -/

structure Draft.WellFormed (d : Draft) : Prop where
  script : d.script.WellFormed
  registry : ∀ name, d.registry.isWritten name = true ↔ name ∈ d.script.states.map (·.name)

namespace Draft

theorem wellFormed_empty : empty.WellFormed :=
  ⟨Script.wellFormed_empty, fun name => by simp [empty, Script.empty, Registry.isWritten]⟩

theorem wellFormed_ofScript {s : Script} (h : s.WellFormed) : WellFormed ⟨.ofScript s, s⟩ :=
  ⟨h, fun name => Registry.isWritten_ofScript s name⟩

theorem handler_wellFormed {e : Event} {ps : List Param} (ht : ps.map (·.type) = e.types)
    (hi : ∀ p ∈ ps, isIdentifier p.ident = true) : Handler.WellFormed ⟨e, ps, [], .sentinel⟩ :=
  ⟨hi, ht, by simp, trivial⟩

/-- A state that the registry does not know has no block. -/
theorem WellFormed.not_mem_stateNames {d : Draft} (h : d.WellFormed) {name : StateName}
    (hw : d.script.states = [] ∨ d.registry.isWritten name = false) : name ∉ d.script.states.map (·.name) := by
  rcases hw with hw | hw
  · simp [hw]
  · exact fun hm => by rw [(h.registry name).mpr hm] at hw; cases hw

theorem Change.wellFormed {loads : Text → Prop} {d d' : Draft} (h : d.WellFormed)
    (hc : d.Change loads d') : d'.WellFormed := by
  cases hc with
  | nothing => exact h
  | declare name => exact ⟨h.script, fun m => by rw [Registry.isWritten_declare]; exact h.registry m⟩
  | @addState name e ps hi ht hp hw =>
    have hn := h.not_mem_stateNames hw
    have hb : StateDef.WellFormed ⟨name, [⟨e, ps, [], .sentinel⟩], .sentinel⟩ :=
      ⟨hi, by simp, fun b hb => by rw [List.mem_singleton.mp hb]; exact handler_wellFormed ht hp, trivial⟩
    refine ⟨h.script.addState hb hn, fun m => ?_⟩
    rw [Registry.isWritten_markWritten, h.registry m]
    simp [Script.addState, or_comm]
  -- the names stay, so only the new block has to be looked at
  | @addHandler name e ps ht hp hfresh =>
    have hs : (d.script.addHandler name ⟨e, ps, [], .sentinel⟩).WellFormed := by
      refine h.script.addHandler (handler_wellFormed ht hp) fun b hb hbn => hfresh b ?_
      exact hbn ▸ Script.state?_of_mem h.script.stateNames hb
    refine ⟨hs, fun m => ?_⟩
    rw [h.registry m]
    simp only [Script.addHandler]
    rw [map_modifyFirst (by intro; rfl)]
  | @addEventLines name e ls hl =>
    refine ⟨h.script.addEventLines name e hl, fun m => ?_⟩
    rw [h.registry m]
    simp only [Script.addEventLines]
    rw [map_modifyFirst (by intro; rfl)]
  | @addFunction name ps hi hp hn =>
    exact ⟨h.script.addFunction ⟨hi, hp, by simp, trivial⟩ hn, h.registry⟩
  | addFunctionLines name hl => exact ⟨h.script.addFunctionLines name hl, h.registry⟩
  | load _ hs => exact wellFormed_ofScript (Script.wellFormed_of_ofText hs)
  | reset => exact wellFormed_empty

def after (d : Draft) : List Step → Draft
  | [] => d
  | step :: steps => (step.run d).draft.after steps

theorem WellFormed.after {d : Draft} (h : d.WellFormed) : ∀ steps :
    List Step, (d.after steps).WellFormed := by
  intro steps
  induction steps generalizing d with
  | nil => exact h
  | cons step steps ih => exact ih ((step.change d).wellFormed h)

end Draft

end LslScript
