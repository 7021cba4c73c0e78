import LslScript.Proofs.Reachable

/-!
# The document is the whole state

Two drafts are alike if they have the same script and their registries give the same answers. Steps
cannot tell alike drafts apart and keep them alike (`Step.alike`). A draft that steps lead to is alike
to the one read from its document, so drafts with the same document are alike.
-/

namespace LslScript

structure Draft.Alike (d₁ d₂ : Draft) : Prop where
  script : d₁.script = d₂.script
  registry : ∀ name, d₁.registry.isWritten name = d₂.registry.isWritten name

inductive SameResult {α : Type} (R : α → α → Prop) : Except Fault α → Except Fault α → Prop
  | error (fault : Fault) : SameResult R (.error fault) (.error fault)
  | ok {a b : α} : R a b → SameResult R (.ok a) (.ok b)

namespace SameResult
variable {α β : Type} {R : α → α → Prop} {Q : β → β → Prop}

theorem bind {x y : Except Fault α} {f g : α → Except Fault β} (h : SameResult R x y)
    (hf : ∀ a b, R a b → SameResult Q (f a) (g b)) : SameResult Q (x >>= f) (y >>= g) := by
  cases h with
  | error fault => exact .error fault
  | ok hr => exact hf _ _ hr

theorem bind_same {x : Except Fault α} {f g : α → Except Fault β}
    (hf : ∀ a, SameResult Q (f a) (g a)) : SameResult Q (x >>= f) (x >>= g) := by
  cases x with
  | error fault => exact .error fault
  | ok a => exact hf a

theorem map {x y : Except Fault α} {f g : α → β} (h : SameResult R x y)
    (hf : ∀ a b, R a b → Q (f a) (g b)) : SameResult Q (x.map f) (y.map g) := by
  cases h with
  | error fault => exact .error fault
  | ok hr => exact .ok (hf _ _ hr)

end SameResult

namespace Draft

def AlikeWith {α : Type} (x y : α × Draft) : Prop := x.1 = y.1 ∧ x.2.Alike y.2

namespace Alike
variable {d₁ d₂ : Draft}

theorem refl (d : Draft) : d.Alike d := ⟨rfl, fun _ => rfl⟩

theorem trans {d₃ : Draft} (h : d₁.Alike d₂) (h' : d₂.Alike d₃) : d₁.Alike d₃ :=
  ⟨h.script.trans h'.script, fun name => (h.registry name).trans (h'.registry name)⟩

theorem of_script (h : d₁.Alike d₂) {s₁ s₂ : Script} (hs : s₁ = s₂) :
    Alike { d₁ with script := s₁ } { d₂ with script := s₂ } := ⟨hs, h.registry⟩

theorem declareState (h : d₁.Alike d₂) (raw : Text) :
    SameResult AlikeWith (d₁.declareState raw) (d₂.declareState raw) := by
  apply SameResult.bind_same
  intro name
  refine .ok ⟨rfl, h.script, ?_⟩
  intro m
  simp only [Registry.isWritten_declare]
  exact h.registry m

theorem appendHandler (h : d₁.Alike d₂) (name : StateName) (e : Event) (ps : List Param) :
    SameResult AlikeWith (d₁.appendHandler name e ps) (d₂.appendHandler name e ps) := by
  simp only [Draft.appendHandler, h.script, h.registry name]
  split
  · exact .error _
  · split
    · refine .ok ⟨rfl, rfl, fun m => ?_⟩
      rw [Bool.eq_iff_iff, Registry.isWritten_markWritten, Registry.isWritten_markWritten, h.registry m]
    · split
      · exact .ok ⟨rfl, h.of_script rfl⟩
      · exact .error _

theorem registerEvent (h : d₁.Alike d₂) (raw : Text) (e : Event) (idents : Option (List Text)) :
    SameResult AlikeWith (d₁.registerEvent raw e idents) (d₂.registerEvent raw e idents) := by
  apply SameResult.bind_same
  intro name
  cases idents with
  | none =>
    apply (h.appendHandler name e e.canonicalParams).bind
    intro a b hab
    obtain ⟨written, d⟩ := a
    obtain ⟨rfl, hd⟩ := hab
    exact .ok ⟨rfl, hd⟩
  | some idents =>
    apply SameResult.bind_same
    intro ps
    apply (h.appendHandler name e ps).bind
    intro a b hab
    obtain ⟨written, d⟩ := a
    obtain ⟨rfl, hd⟩ := hab
    exact .ok ⟨rfl, hd⟩

theorem addEventLine (h : d₁.Alike d₂) (raw : Text) (e : Event) (content : Text) :
    SameResult Alike (d₁.addEventLine raw e content) (d₂.addEventLine raw e content) := by
  apply SameResult.bind_same
  intro ls
  cases ls with
  | nil => exact .ok h
  | cons l ls =>
    apply SameResult.bind_same
    intro name
    simp only [h.script]
    split
    · exact .error _
    · split
      · exact .error _
      · split
        · exact .ok (h.of_script rfl)
        · exact .error _

theorem defineFunction (h : d₁.Alike d₂) (raw : Text) (ps : List Param) :
    SameResult AlikeWith (d₁.defineFunction raw ps) (d₂.defineFunction raw ps) := by
  simp only [Draft.defineFunction, h.script]
  split
  · exact .error _
  · split
    · exact .error _
    · exact .ok ⟨rfl, h.of_script rfl⟩

theorem appendToFunction (h : d₁.Alike d₂) (name : Text) (ls : List Text) :
    SameResult Alike (d₁.appendToFunction name ls) (d₂.appendToFunction name ls) := by
  simp only [Draft.appendToFunction, h.script]
  split
  · exact .error _
  · split
    · exact .ok (h.of_script rfl)
    · exact .error _

theorem addFunctionLine (h : d₁.Alike d₂) (name content : Text) :
    SameResult Alike (d₁.addFunctionLine name content) (d₂.addFunctionLine name content) := by
  apply SameResult.bind_same
  intro ls
  cases ls with
  | nil => exact .ok h
  | cons l ls => exact h.appendToFunction name (l :: ls)

end Alike

end Draft

/-! ## Steps -/

structure Outcome.Alike (o₁ o₂ : Outcome) : Prop where
  answer : o₁.answer = o₂.answer
  log : o₁.log = o₂.log
  draft : o₁.draft.Alike o₂.draft

theorem Outcome.alike_ofEdit {d₁ d₂ : Draft} (h : d₁.Alike d₂)
    {x y : Except Fault (Answer × List LogRecord × Draft)}
    (hxy : SameResult (fun a b => a.1 = b.1 ∧ Draft.AlikeWith a.2 b.2) x y) :
    (Outcome.ofEdit d₁ x).Alike (Outcome.ofEdit d₂ y) := by
  cases hxy with
  | error fault => exact ⟨rfl, rfl, h⟩
  | ok hab => exact ⟨congrArg Except.ok hab.1, hab.2.1, hab.2.2⟩

namespace Step
variable {d₁ d₂ : Draft}

theorem alike_question (h : d₁.Alike d₂) {a₁ a₂ : Answer} (ha : a₁ = a₂) :
    (Outcome.answered d₁ a₁).Alike (Outcome.answered d₂ a₂) := ⟨congrArg Except.ok ha, rfl, h⟩

theorem alike_edit (h : d₁.Alike d₂) {x y : Except Fault Draft} (hxy : SameResult Draft.Alike x y) :
    (Outcome.ofEdit d₁ (x.map (.done, [], ·))).Alike (Outcome.ofEdit d₂ (y.map (.done, [], ·))) :=
  Outcome.alike_ofEdit h (hxy.map fun _ _ hd => ⟨rfl, rfl, hd⟩)

theorem alike (h : d₁.Alike d₂) (step : Step) : (step.run d₁).Alike (step.run d₂) := by
  cases step with
  | declareState state =>
    refine Outcome.alike_ofEdit h ((h.declareState state).map fun a b hab => ?_)
    exact ⟨congrArg Answer.state hab.1, rfl, hab.2⟩
  | registerEvent state event idents =>
    exact Outcome.alike_ofEdit h ((h.registerEvent state event idents).map fun a b hab => ⟨rfl, hab.1, hab.2⟩)
  | addEventLine state event content => exact alike_edit h (h.addEventLine state event content)
  | addCall state event call => exact alike_edit h (h.addEventLine state event call.render)
  | defineFunction name params =>
    refine Outcome.alike_ofEdit h (.bind_same fun ps => (h.defineFunction name ps).bind fun a b hab => ?_)
    exact .ok ⟨congrArg Answer.function hab.1, rfl, hab.2⟩
  | defineFunctionOfPairs name groups =>
    refine Outcome.alike_ofEdit h (SameResult.map (R := Draft.AlikeWith) ?_ fun a b hab => ?_)
    · exact .bind_same fun ps => h.defineFunction name ps
    · exact ⟨congrArg Answer.function hab.1, rfl, hab.2⟩
  | addFunctionLine name content => exact alike_edit h (h.addFunctionLine name content)
  | addBlankLine name => exact alike_edit h (h.appendToFunction name [[]])
  | setDocument text =>
    refine alike_edit h ?_
    cases Draft.ofDocument text with
    | error fault => exact .error fault
    | ok d => exact .ok ⟨rfl, fun _ => rfl⟩
  | reset => exact ⟨rfl, rfl, rfl, fun _ => rfl⟩
  | isWritten state =>
    refine alike_question h ?_
    unfold Draft.isWritten
    split
    · rw [h.registry]
    · rfl
  | isEmpty => exact alike_question h (by rw [Draft.isEmpty, Draft.isEmpty, h.script])
  | stateNames => exact alike_question h (by rw [Draft.stateNames, Draft.stateNames, h.script])
  | functionNames => exact alike_question h (by rw [Draft.functionNames, Draft.functionNames, h.script])
  | eventsOf state => exact alike_question h (by simp only [Draft.eventsOf?, h.script])
  | document => exact alike_question h (by rw [Draft.document, Draft.document, h.script])
  | expanded =>
    exact alike_question h (by rw [Draft.expanded, Draft.expanded, Draft.document, Draft.document, h.script])

end Step

/-- What a caller sees of a step. -/
def Outcome.seen (o : Outcome) : Except Fault Answer × List LogRecord × Text :=
  (o.answer, o.log, o.draft.document)

namespace Draft

theorem Alike.document {d₁ d₂ : Draft} (h : d₁.Alike d₂) : d₁.document = d₂.document := by
  rw [Draft.document, Draft.document, h.script]

theorem Alike.seen_run {d₁ d₂ : Draft} (h : d₁.Alike d₂) (step : Step) :
    (step.run d₁).seen = (step.run d₂).seen := by
  have ho := step.alike h
  rw [Outcome.seen, Outcome.seen, ho.answer, ho.log, ho.draft.document]

theorem Alike.run {d₁ d₂ : Draft} (h : d₁.Alike d₂) : ∀ steps : List Step,
    (d₁.run steps).map Outcome.seen = (d₂.run steps).map Outcome.seen := by
  intro steps
  induction steps generalizing d₁ d₂ with
  | nil => rfl
  | cons step steps ih => simp only [Draft.run, List.map_cons, h.seen_run step, ih (step.alike h).draft]

/-! ## Documents -/

theorem WellFormed.ofDocument_document {d : Draft} (h : d.WellFormed) :
    Draft.ofDocument d.document = .ok ⟨.ofScript d.script, d.script⟩ :=
  ofDocument_eq_ok_iff.mpr ⟨Script.ofText_text h.script, rfl⟩

theorem WellFormed.alike {d₁ d₂ : Draft} (h₁ : d₁.WellFormed) (h₂ : d₂.WellFormed)
    (hs : d₁.script = d₂.script) : d₁.Alike d₂ := by
  refine ⟨hs, fun name => ?_⟩
  rw [Bool.eq_iff_iff, h₁.registry, h₂.registry, hs]

/-- The text of a well-formed script determines it, so drafts with one document differ in their
registries at most. -/
theorem WellFormed.alike_of_document {d₁ d₂ : Draft} (h₁ : d₁.WellFormed) (h₂ : d₂.WellFormed)
    (hd : d₁.document = d₂.document) : d₁.Alike d₂ := by
  have hs : Script.ofText d₁.document = Script.ofText d₂.document := by rw [hd]
  rw [Draft.document, Draft.document, Script.ofText_text h₁.script, Script.ofText_text h₂.script] at hs
  exact h₁.alike h₂ (Except.ok.inj hs)

/-- A draft that steps lead to can be replaced by the one read from its document. -/
theorem setDocument_document (steps : List Step) :
    let d := empty.after steps
    ∃ d', (Step.setDocument d.document).run d = ⟨.ok .done, [], d'⟩ ∧ d'.document = d.document ∧
      d'.stateNames = d.stateNames ∧ d'.functionNames = d.functionNames ∧
      (∀ raw, d'.eventsOf? raw = d.eventsOf? raw) ∧ ∀ raw, d'.isWritten raw = d.isWritten raw := by
  intro d
  have hd : d.WellFormed := wellFormed_empty.after steps
  have alike : Alike ⟨.ofScript d.script, d.script⟩ d := (wellFormed_ofScript hd.script).alike hd rfl
  refine ⟨⟨.ofScript d.script, d.script⟩, ?_, rfl, rfl, rfl, fun _ => rfl, fun raw => ?_⟩
  · simp only [Step.run, hd.ofDocument_document]
    rfl
  · unfold isWritten
    split
    · exact alike.registry _
    · rfl

/-- Drafts that steps lead to and that have the same document cannot be told apart by further steps. -/
theorem run_eq_of_document_eq {steps₁ steps₂ : List Step}
    (h : (empty.after steps₁).document = (empty.after steps₂).document) (steps : List Step) :
    ((empty.after steps₁).run steps).map Outcome.seen =
      ((empty.after steps₂).run steps).map Outcome.seen :=
  ((wellFormed_empty.after steps₁).alike_of_document (wellFormed_empty.after steps₂) h).run steps

/-- The registry of the first draft knows a state more. -/
theorem run_eq_with_other_registry :
    let written : List Step := [.declareState "two", .registerEvent "" .timer none]
    let read : List Step := [.setDocument ("default\n\x7b\n    timer()\n    \x7b\n" ++
      "    \x7d  // End of 'timer' event\n\n\x7d  // End of 'default' state\n\n".toList)]
    (empty.after written).document = (empty.after read).document ∧
      (empty.after written).registry ≠ (empty.after read).registry ∧
      ∀ steps, ((empty.after written).run steps).map Outcome.seen =
        ((empty.after read).run steps).map Outcome.seen := by
  intro written read
  have h : (empty.after written).document = (empty.after read).document := by decide +kernel
  refine ⟨h, ?_, run_eq_of_document_eq h⟩
  decide +kernel

end Draft

end LslScript
