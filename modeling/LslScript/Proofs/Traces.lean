import LslScript.Proofs.Reload

/-!
# Steps that leave no trace

A step that fails leaves the draft as it is (`Step.draft_of_failed`). A step that declares a state or inserts
blank content leaves one that later steps cannot tell from it (`Step.Silent.alike`). So such steps can be left out
of a run, and those that are kept have the outcomes that they had (`Draft.run_kept`).
-/

namespace LslScript

def Outcome.Failed (o : Outcome) : Prop := ∃ fault, o.answer = .error fault

namespace Step

/-- Steps that nothing is seen of later, whatever they answer. -/
inductive Silent : Step → Prop
  | declareState (state : Text) : Silent (.declareState state)
  | addEventLine (state : Text) (event : Event) {content : Text} : content.isBlank = true →
    Silent (.addEventLine state event content)
  | addCall (state : Text) (event : Event) {call : Call} : call.render.isBlank = true →
    Silent (.addCall state event call)
  | addFunctionLine (name : Text) {content : Text} : content.isBlank = true → Silent (.addFunctionLine name content)

end Step

namespace Draft

theorem addEventLine_blank (d : Draft) (raw : Text) (e : Event) {content : Text} (h : content.isBlank = true) :
    d.addEventLine raw e content = .ok d := by
  unfold addEventLine
  rw [bodyLines_eq_ok_iff.mpr (.inl ⟨h, rfl⟩)]
  rfl

theorem addFunctionLine_blank (d : Draft) (name : Text) {content : Text} (h : content.isBlank = true) :
    d.addFunctionLine name content = .ok d := by
  unfold addFunctionLine
  rw [bodyLines_eq_ok_iff.mpr (.inl ⟨h, rfl⟩)]
  rfl

end Draft

/-- Of an edit that fails no draft is kept. -/
theorem Outcome.draft_ofEdit {d : Draft} {x : Except Fault (Answer × List LogRecord × Draft)}
    (h : (Outcome.ofEdit d x).Failed) : (Outcome.ofEdit d x).draft = d := by
  cases x with
  | error fault => rfl
  | ok result =>
    obtain ⟨fault, h⟩ := h
    cases h

namespace Step

theorem draft_of_failed {d : Draft} {step : Step} (h : (step.run d).Failed) : (step.run d).draft = d := by
  cases step with
  | reset =>
    obtain ⟨fault, h⟩ := h
    cases h
  | declareState state => exact Outcome.draft_ofEdit h
  | registerEvent state event idents => exact Outcome.draft_ofEdit h
  | addEventLine state event content => exact Outcome.draft_ofEdit h
  | addCall state event call => exact Outcome.draft_ofEdit h
  | defineFunction name params => exact Outcome.draft_ofEdit h
  | defineFunctionOfPairs name groups => exact Outcome.draft_ofEdit h
  | addFunctionLine name content => exact Outcome.draft_ofEdit h
  | addBlankLine name => exact Outcome.draft_ofEdit h
  | setDocument text => exact Outcome.draft_ofEdit h
  -- the others only ask
  | _ => rfl

theorem Silent.alike {step : Step} (h : step.Silent) (d : Draft) : d.Alike (step.run d).draft := by
  cases h with
  | declareState state =>
    rw [run]
    cases hd : d.declareState state with
    | error fault => exact .refl d
    | ok result =>
      obtain ⟨name, d'⟩ := result
      obtain ⟨-, rfl⟩ := Draft.declareState_ok hd
      exact ⟨rfl, fun m => (Registry.isWritten_declare d.registry name m).symm⟩
  | addEventLine state event hb =>
    rw [run, d.addEventLine_blank state event hb]
    exact .refl d
  | addCall state event hb =>
    rw [run, Draft.addCall, d.addEventLine_blank state event hb]
    exact .refl d
  | addFunctionLine name hb =>
    rw [run, d.addFunctionLine_blank name hb]
    exact .refl d

end Step

/-! ## Runs -/

namespace Draft

/-- The steps that are kept of a run, with their outcomes in it. Those left out fail in it or are silent. -/
inductive Keeps : Draft → List Step → List (Step × Outcome) → Prop
  | nil (d : Draft) : Keeps d [] []
  | keep {d : Draft} {step : Step} {steps : List Step} {kept : List (Step × Outcome)} :
    Keeps (step.run d).draft steps kept → Keeps d (step :: steps) ((step, step.run d) :: kept)
  | leaveOut {d : Draft} {step : Step} {steps : List Step} {kept : List (Step × Outcome)} :
    (step.run d).Failed ∨ step.Silent → Keeps (step.run d).draft steps kept → Keeps d (step :: steps) kept

/-- The run of the steps that are kept stays beside the whole run: their drafts are alike. -/
theorem Keeps.run {d d' : Draft} {steps : List Step} {kept : List (Step × Outcome)} (h : d.Keeps steps kept)
    (ha : d'.Alike d) : (d'.run (kept.map (·.1))).map Outcome.seen = kept.map (·.2.seen) := by
  induction h generalizing d' with
  | nil d => rfl
  | @keep d step steps kept _ ih =>
    rw [List.map_cons, List.map_cons, Draft.run, List.map_cons, ha.seen_run step, ih (step.alike ha).draft]
  | @leaveOut d step steps kept hstep _ ih =>
    have stays : d.Alike (step.run d).draft := by
      rcases hstep with hf | hs
      · rw [Step.draft_of_failed hf]
        exact .refl d
      · exact hs.alike d
    exact ih (ha.trans stays)

/-- Steps that fail, that declare states and that insert blank content can be left out of a run: each of the others
gives the same answer, the same records and the same document without them. -/
theorem run_kept (past : List Step) {steps : List Step} {kept : List (Step × Outcome)}
    (h : (empty.after past).Keeps steps kept) :
    ((empty.after past).run (kept.map (·.1))).map Outcome.seen = kept.map (·.2.seen) :=
  h.run (.refl _)

/-- A declaration, blank content three times, an event that is there already and a text that is no script. -/
theorem run_kept_among_others :
    let d := empty.after [.registerEvent "" .timer none]
    let steps : List Step := [.declareState "two", .registerEvent " two" .touch none,
      .registerEvent "two" .touch none, .addEventLine "two" .touch " \n", .addCall "" .timer (.raw ""),
      .setDocument "two", .addFunctionLine "f" " ", .addEventLine "two" .touch "x;", .isWritten "two"]
    let short : List Step := [.registerEvent " two" .touch none, .addEventLine "two" .touch "x;", .isWritten "two"]
    ∃ kept, d.Keeps steps kept ∧ kept.map (·.1) = short ∧
      (d.run short).map Outcome.seen = kept.map (·.2.seen) := by
  intro d steps short
  have twice : ((Step.registerEvent "two" .touch none).run (d.after (steps.take 2))).Failed :=
    ⟨.eventTwice .touch "state two", by decide +kernel⟩
  have noScript : ((Step.setDocument "two").run (d.after (steps.take 5))).Failed :=
    ⟨.layout 1 .noHeader, by decide +kernel⟩
  have keeps : d.Keeps steps _ :=
    .leaveOut (.inr (.declareState _)) <| .keep <| .leaveOut (.inl twice) <|
      .leaveOut (.inr (.addEventLine _ _ (by decide))) <| .leaveOut (.inr (.addCall _ _ (by decide))) <|
      .leaveOut (.inl noScript) <| .leaveOut (.inr (.addFunctionLine _ (by decide))) <|
      .keep <| .keep <| .nil _
  exact ⟨_, keeps, rfl, run_kept [.registerEvent "" .timer none] keeps⟩

end Draft

end LslScript
