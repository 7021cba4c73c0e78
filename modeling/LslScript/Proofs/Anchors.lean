import LslScript.Proofs.Reachable

/-!
# Anchors are found

The end of a state that the registry says is written is looked for in the script, and the registry and
the script agree. So no step on a reachable draft is refused for a missing anchor
(`Step.anchored`).
-/

namespace LslScript

def FaultsIn {α : Type} (P : Fault → Prop) (x : Except Fault α) : Prop :=
  ∀ fault, x = .error fault → P fault

namespace FaultsIn
variable {α β : Type} {P : Fault → Prop}

theorem ok (a : α) : FaultsIn P (.ok a) := fun _ h => by cases h

theorem error {fault : Fault} (h : P fault) : FaultsIn P (.error fault : Except Fault α) :=
  fun _ he => Except.error.inj he ▸ h

theorem bind {x : Except Fault α} {f : α → Except Fault β} (hx : FaultsIn P x)
    (hf : ∀ a, FaultsIn P (f a)) : FaultsIn P (x >>= f) := by
  cases x with
  | ok a => exact hf a
  | error fault => exact error (hx fault rfl)

theorem mono {Q : Fault → Prop} {x : Except Fault α} (hx : FaultsIn P x) (h : ∀ fault, P fault → Q fault) :
    FaultsIn Q x := fun fault he => h fault (hx fault he)

theorem map {x : Except Fault α} {f : α → β} (hx : FaultsIn P x) : FaultsIn P (x.map f) := by
  cases x with
  | ok a => exact ok _
  | error fault => exact error (hx fault rfl)

theorem param (h : ∀ cause, P (.param cause)) (x : Except ParamFault α) :
    FaultsIn P (x.mapError .param) := by
  cases x with
  | ok a => exact ok a
  | error cause => exact error (h cause)

theorem mapM {f : α → Except Fault β} (hf : ∀ a, FaultsIn P (f a)) : ∀ as :
    List α, FaultsIn P (as.mapM f)
  | [] => ok []
  | a :: as => by
    rw [List.mapM_cons]
    exact (hf a).bind fun b => (mapM hf as).bind fun bs => ok (b :: bs)

end FaultsIn

def Fault.NotAnchor : Fault → Prop
  | .noStateEnd _ => False
  | _ => True

/-- Of all faults only that of a missing state end has this code. -/
theorem Fault.NotAnchor.code_ne {fault : Fault} (h : fault.NotAnchor) :
    fault.report.code ≠ "STRUCTURAL_NO_ANCHOR".toList := by
  intro hc
  cases fault with
  | noStateEnd label => exact h.elim
  | param cause => cases cause <;> exact absurd hc (of_decide_eq_false rfl)
  | notBracketed literal raw => cases literal <;> exact absurd hc (of_decide_eq_false rfl)
  | notFloat literal part => cases literal <;> exact absurd hc (of_decide_eq_false rfl)
  | _ => exact absurd hc (of_decide_eq_false rfl)

abbrev Anchored {α : Type} (x : Except Fault α) : Prop := FaultsIn Fault.NotAnchor x

/-- A fault in the names and literals that were given, whatever the blocks of the draft end with. -/
def Fault.OfInput : Fault → Prop
  | rawDelimiter .. | noEventEnd .. | noFunctionEnd _ | noStateEnd _ | layout .. => False
  | _ => True

theorem Fault.OfInput.notAnchor {fault : Fault} (h : fault.OfInput) : fault.NotAnchor := by
  cases fault with
  | noStateEnd label => exact h.elim
  | _ => trivial

theorem FaultsIn.anchored {α : Type} {x : Except Fault α} (h : FaultsIn Fault.OfInput x) : Anchored x :=
  h.mono fun _ hf => hf.notAnchor

/-! ## Faults of edits -/

theorem StateName.faultsIn_ofText (raw : Text) : FaultsIn Fault.OfInput (ofText raw) := by
  simp only [ofText]
  split
  · exact .ok _
  · split
    · exact .error trivial
    · split
      · exact .ok _
      · exact .error trivial

theorem anchored_bodyLines (depth : Nat) (content : Text) : Anchored (bodyLines depth content) := by
  unfold bodyLines
  split
  · exact .ok _
  · split
    · exact .error trivial
    · exact .ok _

theorem Event.faultsIn_bind (e : Event) (idents : List Text) : FaultsIn Fault.OfInput (e.bind idents) := by
  unfold Event.bind
  split
  · exact .mapM (fun _ => .param (fun _ => trivial) _) _
  · exact .error trivial

namespace Draft
variable {d : Draft}

theorem WellFormed.faultsIn_appendHandler (hd : d.WellFormed) (name : StateName) (e : Event)
    (ps : List Param) : FaultsIn Fault.OfInput (d.appendHandler name e ps) := by
  simp only [appendHandler]
  split
  · exact .error trivial
  · split
    · exact .ok _
    · rename_i hw
      split
      · exact .ok _
      · rename_i hs
        -- written by the registry, without a block in the script
        simp only [Bool.or_eq_true, Bool.not_eq_true', not_or, Bool.not_eq_false] at hw
        exact absurd (Script.state?_isSome_iff.mpr ((hd.registry name).mp hw.2)) hs

theorem WellFormed.faultsIn_registerEvent (hd : d.WellFormed) (raw : Text) (e : Event)
    (idents : Option (List Text)) : FaultsIn Fault.OfInput (d.registerEvent raw e idents) := by
  refine (StateName.faultsIn_ofText raw).bind fun name => ?_
  cases idents with
  | none => exact (hd.faultsIn_appendHandler name e _).bind fun r => .ok _
  | some idents =>
    exact (e.faultsIn_bind idents).bind fun ps => (hd.faultsIn_appendHandler name e ps).bind fun r => .ok _

theorem faultsIn_defineFunction (raw : Text) (ps : List Param) :
    FaultsIn Fault.OfInput (d.defineFunction raw ps) := by
  simp only [defineFunction]
  split
  · exact .error trivial
  · split
    · exact .error trivial
    · exact .ok _

theorem faultsIn_defineFunctionOfPairs (raw : Text) (groups : List (List Text)) :
    FaultsIn Fault.OfInput (d.defineFunctionOfPairs raw groups) :=
  (FaultsIn.param (fun _ => trivial) _).bind fun ps => faultsIn_defineFunction raw ps

section
variable {P : Fault → Prop} (hP : ∀ fault : Fault, fault.OfInput → P fault)
include hP

/-- Beyond the input, content can be refused, and a handler that does not end in its sentinel. -/
theorem faultsIn_addEventLine (raw : Text) {e : Event} {content : Text} (hc : FaultsIn P (bodyLines 2 content))
    (hb : ∀ name state b, d.script.state? name = some state → state.handler? e = some b →
      b.ending = .sentinel ∨ P (.noEventEnd e name.label)) : FaultsIn P (d.addEventLine raw e content) := by
  refine hc.bind fun ls => ?_
  cases ls with
  | nil => exact .ok d
  | cons l ls =>
    refine ((StateName.faultsIn_ofText raw).mono hP).bind fun name => ?_
    split
    · exact .error (hP _ trivial)
    · rename_i state hs
      split
      · exact .error (hP _ trivial)
      · rename_i b hh
        split
        · exact .ok _
        · rename_i he
          exact .error ((hb name state b hs hh).resolve_left he)

theorem faultsIn_appendToFunction {name : Text} (ls : List Text)
    (hb : ∀ b, d.script.function? name = some b → b.ending = .sentinel ∨ P (.noFunctionEnd name)) :
    FaultsIn P (d.appendToFunction name ls) := by
  unfold appendToFunction
  split
  · exact .error (hP _ trivial)
  · rename_i b hf
    split
    · exact .ok _
    · rename_i he
      exact .error ((hb b hf).resolve_left he)

theorem faultsIn_addFunctionLine {name content : Text} (hc : FaultsIn P (bodyLines 1 content))
    (hb : ∀ b, d.script.function? name = some b → b.ending = .sentinel ∨ P (.noFunctionEnd name)) :
    FaultsIn P (d.addFunctionLine name content) := by
  refine hc.bind fun ls => ?_
  cases ls with
  | nil => exact .ok d
  | cons l ls => exact faultsIn_appendToFunction hP (l :: ls) hb

end

theorem anchored_addEventLine (raw : Text) (e : Event) (content : Text) :
    Anchored (d.addEventLine raw e content) :=
  faultsIn_addEventLine (fun _ => Fault.OfInput.notAnchor) raw (anchored_bodyLines 2 content)
    fun _ _ _ _ _ => Or.inr trivial

theorem anchored_appendToFunction (name : Text) (ls : List Text) :
    Anchored (d.appendToFunction name ls) :=
  faultsIn_appendToFunction (fun _ => Fault.OfInput.notAnchor) ls fun _ _ => Or.inr trivial

theorem anchored_addFunctionLine (name content : Text) :
    Anchored (d.addFunctionLine name content) :=
  faultsIn_addFunctionLine (fun _ => Fault.OfInput.notAnchor) (anchored_bodyLines 1 content)
    fun _ _ => Or.inr trivial

end Draft

theorem Reading.anchored_readFrom : ∀ (ls : List Text) (r : Reading) (number : Nat),
    Anchored (r.readFrom number ls)
  | [], r, number => by
    rw [readFrom]
    cases r.finish with
    | ok s => exact .ok s
    | error defect => exact .error trivial
  | line :: ls, r, number => by
    rw [readFrom]
    split
    · exact anchored_readFrom ls _ _
    · exact .error trivial

theorem Outcome.anchored_ofEdit {d : Draft} {x : Except Fault (Answer × List LogRecord × Draft)}
    (hx : Anchored x) : Anchored (Outcome.ofEdit d x).answer := by
  cases x with
  | ok r => exact .ok _
  | error fault => exact .error (hx fault rfl)

theorem Step.anchored {d : Draft} (hd : d.WellFormed) (step : Step) :
    Anchored (step.run d).answer := by
  cases step with
  | declareState state =>
    exact Outcome.anchored_ofEdit ((StateName.faultsIn_ofText state).bind fun name => .ok _).map.anchored
  | registerEvent state event idents =>
    exact Outcome.anchored_ofEdit (hd.faultsIn_registerEvent state event idents).map.anchored
  | addEventLine state event content =>
    exact Outcome.anchored_ofEdit (Draft.anchored_addEventLine state event content).map
  | addCall state event call =>
    exact Outcome.anchored_ofEdit (Draft.anchored_addEventLine state event call.render).map
  | defineFunction name params =>
    have pairs := FaultsIn.param (P := Fault.OfInput) (fun _ => trivial)
      (params.mapM fun p => Param.named p.1 p.2)
    exact Outcome.anchored_ofEdit (pairs.bind fun ps =>
      (Draft.faultsIn_defineFunction name ps).bind fun r => .ok _).anchored
  | defineFunctionOfPairs name groups =>
    exact Outcome.anchored_ofEdit (Draft.faultsIn_defineFunctionOfPairs name groups).map.anchored
  | addFunctionLine name content =>
    exact Outcome.anchored_ofEdit (Draft.anchored_addFunctionLine name content).map
  | addBlankLine name => exact Outcome.anchored_ofEdit (Draft.anchored_appendToFunction name [[]]).map
  | setDocument text =>
    exact Outcome.anchored_ofEdit ((Reading.anchored_readFrom _ _ _).bind fun s => .ok _).map
  | _ => exact .ok _

namespace Draft

theorem WellFormed.isWritten_iff {d : Draft} (hd : d.WellFormed) (raw : Text) :
    d.isWritten raw = true ↔ ∃ name ∈ d.stateNames, StateName.ofText raw = .ok name := by
  unfold isWritten
  split
  · rename_i name hn
    rw [hd.registry name]
    refine ⟨fun hm => ⟨name, hm, hn⟩, ?_⟩
    intro ⟨m, hm, he⟩
    rwa [← Except.ok.inj (hn.symm.trans he)] at hm
  · rename_i fault hf
    simp [hf]

theorem exists_eventsOf?_iff (d : Draft) (raw : Text) :
    (∃ events, d.eventsOf? raw = some events) ↔ ∃ name ∈ d.stateNames, StateName.ofText raw = .ok name := by
  unfold eventsOf?
  split
  · rename_i name hn
    rw [← Option.isSome_iff_exists, Option.isSome_map, Script.state?_isSome_iff]
    refine ⟨fun hm => ⟨name, hm, hn⟩, ?_⟩
    intro ⟨m, hm, he⟩
    rwa [← Except.ok.inj (hn.symm.trans he)] at hm
  · rename_i fault hf
    simp [hf]

/-- Names are distinct identifiers, handlers have the parameters of their events, the registry says
of exactly the states with a block that they are written, and no anchor is ever missing. -/
theorem representation_after (steps : List Step) :
    let d := empty.after steps
    (d.functionNames.Nodup ∧ ∀ name ∈ d.functionNames, isIdentifier name = true) ∧
    (d.stateNames.Nodup ∧ ∀ name ∈ d.stateNames, isIdentifier name.text = true) ∧
    (∀ state ∈ d.script.states, (state.handlers.map (·.event)).Nodup ∧ ∀ b ∈ state.handlers,
      b.params.map (·.type) = b.event.types ∧ ∀ p ∈ b.params, isIdentifier p.ident = true) ∧
    (∀ raw, (d.isWritten raw = true ↔ ∃ name ∈ d.stateNames, StateName.ofText raw = .ok name) ∧
      (d.isWritten raw = true ↔ ∃ events, d.eventsOf? raw = some events)) ∧
    ∀ (step : Step) (fault : Fault), (step.run d).answer = .error fault →
      fault.report.code ≠ "STRUCTURAL_NO_ANCHOR".toList := by
  intro d
  have hd : d.WellFormed := wellFormed_empty.after steps
  refine ⟨⟨hd.script.functionNames, ?_⟩, ⟨hd.script.stateNames, ?_⟩, ?_, ?_, ?_⟩
  · intro name hm
    obtain ⟨b, hb, rfl⟩ := List.mem_map.mp hm
    exact (hd.script.functions b hb).name
  · intro name hm
    obtain ⟨b, hb, rfl⟩ := List.mem_map.mp hm
    exact (hd.script.states b hb).name
  · intro state hs
    have hw := hd.script.states state hs
    exact ⟨hw.events, fun b hb => ⟨(hw.handlers b hb).types, (hw.handlers b hb).params⟩⟩
  · intro raw
    have written := hd.isWritten_iff raw
    exact ⟨written, written.trans (d.exists_eventsOf?_iff raw).symm⟩
  · exact fun step fault h => (step.anchored hd fault h).code_ne

theorem representation_after_refused :
    let d := empty.after [.registerEvent "" .timer none]
    let step : Step := .registerEvent "default" .timer none
    (step.run d).answer = .error (.eventTwice .timer "default") ∧
      (Fault.eventTwice .timer "default").report.code ≠ "STRUCTURAL_NO_ANCHOR".toList := by
  intro d step
  have h : (step.run d).answer = .error (.eventTwice .timer "default") := by decide +kernel
  exact ⟨h, (representation_after [.registerEvent "" .timer none]).2.2.2.2 step _ h⟩

end Draft

end LslScript
