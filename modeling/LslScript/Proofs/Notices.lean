import LslScript.Proofs.Lasting
import LslScript.Proofs.Resuming

/-!
# Notices

The warning of a run tells that the block of the default state was written for an event whose state was not named.
Only the step that writes this block can log it (`Step.begins_or_quiet`), and the block stays, so a run logs it once
at most (`Draft.warnings_length`). The operations of a recipe log what they do as steps, and a record for each that
is applied (`Recipe.debug_build`).
-/

namespace LslScript

def LogRecord.ofLevel (level : LogLevel) (log : List LogRecord) : List LogRecord := log.filter (·.level = level)

open LogRecord (ofLevel)

theorem LogRecord.ofLevel_append (level : LogLevel) (log log' : List LogRecord) :
    ofLevel level (log ++ log') = ofLevel level log ++ ofLevel level log' := List.filter_append ..

theorem StateName.ofText_blank {raw : Text} (h : raw.isBlank = true) : StateName.ofText raw = .ok .default := by
  have nothing : raw.trimStart = [] := List.dropWhile_eq_nil_iff.mpr (List.all_eq_true.mp h)
  simp [StateName.ofText, Text.trim, nothing, Text.trimEnd]

/-! ## One step -/

namespace Step

structure Begins (step : Step) (d : Draft) (raw : Text) (name : StateName) : Prop where
  call : ∃ e idents, step = .registerEvent raw e idents
  answer : (step.run d).answer = .ok .done
  log : (step.run d).log = if raw.isBlank then [.stateNotNamed] else []
  named : StateName.ofText raw = .ok name
  new : name ∉ d.stateNames
  names : (step.run d).draft.stateNames = d.stateNames ++ [name]

structure Quiet (step : Step) (d : Draft) : Prop where
  log : (step.run d).log = []
  names : (step.run d).draft.stateNames = d.stateNames

end Step

theorem Draft.Addition.stateNames {d d' : Draft} (h : d.Addition d') : d'.stateNames = d.stateNames := by
  cases h with
  | eventLines name e ls => exact map_modifyFirst (by intro; rfl) _
  | _ => rfl

namespace Step
variable {d : Draft} {step : Step}

theorem begins_or_quiet (hd : d.WellFormed) (h : step.replaces = false) :
    (∃ raw name, step.Begins d raw name) ∨ step.Quiet d := by
  rcases run_cases d h with hadds | ⟨raw, e, idents, log, d', call, hr, run⟩
  · exact .inr ⟨hadds.log, hadds.draft.stateNames⟩
  · obtain ⟨name, ps, written, hn, -, ha, hl⟩ := Draft.registerEvent_ok hr
    obtain ⟨-, ⟨hw, hnew, hd'⟩ | ⟨hw, -, -, hd'⟩⟩ := Draft.appendHandler_ok ha
    · left
      refine ⟨raw, name, ⟨e, idents, call⟩, ?_, ?_, hn, hd.not_mem_stateNames hnew, ?_⟩
      · rw [run]
      · rw [run, hl, hw, Bool.true_and]
      · rw [run, hd']
        exact List.map_append
    · right
      constructor
      · rw [run, hl, hw]
        rfl
      · rw [run, hd']
        exact map_modifyFirst (by intro; rfl) _

def CreatesDefault (step : Step) (d : Draft) : Prop :=
  .default ∉ d.stateNames ∧ .default ∈ (step.run d).draft.stateNames

theorem stateNames_subset_run (hd : d.WellFormed) (h : step.replaces = false) :
    d.stateNames ⊆ (step.run d).draft.stateNames := by
  rcases begins_or_quiet hd h with ⟨raw, name, hb⟩ | hq
  · rw [hb.names]
    exact List.subset_append_left ..
  · rw [hq.names]
    exact List.Subset.refl _

theorem begins_default (hd : d.WellFormed) (h : step.replaces = false) (hc : step.CreatesDefault d) :
    ∃ raw, step.Begins d raw .default := by
  rcases begins_or_quiet hd h with ⟨raw, name, hb⟩ | hq
  · have hm := hc.2
    rw [hb.names, List.mem_append, List.mem_singleton] at hm
    rcases hm with hm | hm
    · exact absurd hm hc.1
    · exact ⟨raw, hm ▸ hb⟩
  · have hm := hc.2
    rw [hq.names] at hm
    exact absurd hm hc.1

theorem Begins.creates {raw : Text} (hb : step.Begins d raw .default) : step.CreatesDefault d :=
  ⟨hb.new, by simp [hb.names]⟩

theorem Begins.warnings {raw : Text} {name : StateName} (hb : step.Begins d raw name) :
    ofLevel .warn (step.run d).log = if raw.isBlank then [.stateNotNamed] else [] := by
  rw [hb.log]
  cases raw.isBlank <;> rfl

theorem Begins.name_of_blank {raw : Text} {name : StateName} (hb : step.Begins d raw name)
    (h : raw.isBlank = true) :
    name = .default := by
  have named := hb.named
  rw [StateName.ofText_blank h] at named
  cases named
  rfl

/-- A warning is logged exactly by the event that begins the default state without naming it. -/
theorem warnings_run (hd : d.WellFormed) (h : step.replaces = false) :
    ofLevel .warn (step.run d).log ≠ [] ↔
      step.CreatesDefault d ∧ ∃ raw e idents, step = .registerEvent raw e idents ∧ raw.isBlank = true := by
  constructor
  · intro hw
    rcases begins_or_quiet hd h with ⟨raw, name, hb⟩ | hq
    · rw [hb.warnings] at hw
      have blank : raw.isBlank = true := by
        by_contra hn
        simp [hn] at hw
      obtain ⟨e, idents, call⟩ := hb.call
      exact ⟨(hb.name_of_blank blank ▸ hb).creates, raw, e, idents, call, blank⟩
    · rw [hq.log] at hw
      exact absurd rfl hw
  · intro ⟨hc, raw, e, idents, call, blank⟩
    obtain ⟨raw', hb⟩ := begins_default hd h hc
    obtain ⟨e', idents', call'⟩ := hb.call
    rw [call] at call'
    cases call'
    simp [hb.warnings, blank]

end Step

/-! ## Runs -/

namespace Draft
variable {d : Draft} {steps before mid after : List Step} {step step' : Step}

def log (d : Draft) (steps : List Step) : List LogRecord := (d.run steps).flatMap (·.log)

theorem log_cons (d : Draft) (step : Step) (steps : List Step) :
    d.log (step :: steps) = (step.run d).log ++ (step.run d).draft.log steps := List.flatMap_cons ..

theorem log_append (xs ys : List Step) (d : Draft) : d.log (xs ++ ys) = d.log xs ++ (d.after xs).log ys := by
  induction xs generalizing d with
  | nil => rfl
  | cons step xs ih =>
    rw [List.cons_append, log_cons, log_cons, ih, List.append_assoc]
    rfl

theorem WellFormed.stateNames_subset_after (hd : d.WellFormed) (h : ∀ step ∈ steps, step.replaces = false) :
    d.stateNames ⊆ (d.after steps).stateNames := by
  induction steps generalizing d with
  | nil => exact List.Subset.refl _
  | cons step steps ih =>
    obtain ⟨hs, hsteps⟩ := List.forall_mem_cons.mp h
    exact List.Subset.trans (Step.stateNames_subset_run hd hs) (ih ((step.change d).wellFormed hd) hsteps)

theorem WellFormed.warnings_of_default (hd : d.WellFormed) (h : ∀ step ∈ steps, step.replaces = false)
    (hm : .default ∈ d.stateNames) : ofLevel .warn (d.log steps) = [] := by
  induction steps generalizing d with
  | nil => rfl
  | cons step steps ih =>
    obtain ⟨hs, hsteps⟩ := List.forall_mem_cons.mp h
    rw [log_cons, LogRecord.ofLevel_append]
    rw [ih ((step.change d).wellFormed hd) hsteps (Step.stateNames_subset_run hd hs hm), List.append_nil]
    by_contra hw
    exact ((Step.warnings_run hd hs).mp hw).1.1 hm

theorem WellFormed.warnings_before_default (hd : d.WellFormed) (h : ∀ step ∈ steps, step.replaces = false)
    (hm : .default ∉ (d.after steps).stateNames) : ofLevel .warn (d.log steps) = [] := by
  induction steps generalizing d with
  | nil => rfl
  | cons step steps ih =>
    obtain ⟨hs, hsteps⟩ := List.forall_mem_cons.mp h
    have hd' := (step.change d).wellFormed hd
    rw [log_cons, LogRecord.ofLevel_append, ih hd' hsteps hm, List.append_nil]
    by_contra hw
    exact hm (hd'.stateNames_subset_after hsteps ((Step.warnings_run hd hs).mp hw).1.2)

/-- The step that writes the default state decides alone what the warnings of the run are. -/
theorem WellFormed.warnings_split (hd : d.WellFormed) (h : ∀ s ∈ before ++ step :: after, s.replaces = false)
    (hc : step.CreatesDefault (d.after before)) :
    ofLevel .warn (d.log (before ++ step :: after)) = ofLevel .warn (step.run (d.after before)).log := by
  obtain ⟨hbefore, hrest⟩ := List.forall_mem_append.mp h
  obtain ⟨hs, hafter⟩ := List.forall_mem_cons.mp hrest
  have hd' := (step.change _).wellFormed (hd.after before)
  rw [log_append, log_cons, LogRecord.ofLevel_append, LogRecord.ofLevel_append]
  rw [hd.warnings_before_default hbefore hc.1, hd'.warnings_of_default hafter hc.2]
  simp

/-- The default state is written once: its block stays. -/
theorem WellFormed.not_creates_again (hd : d.WellFormed) (h : ∀ s ∈ before ++ step :: mid, s.replaces = false)
    (hc : step.CreatesDefault (d.after before)) : ¬ step'.CreatesDefault (d.after (before ++ step :: mid)) := by
  intro hc'
  obtain ⟨-, hrest⟩ := List.forall_mem_append.mp h
  obtain ⟨-, hmid⟩ := List.forall_mem_cons.mp hrest
  have hd' := (step.change _).wellFormed (hd.after before)
  rw [after_append] at hc'
  exact hc'.1 (hd'.stateNames_subset_after hmid hc.2)

theorem WellFormed.creates_unique (hd : d.WellFormed) {before' after' : List Step}
    (h : ∀ s ∈ before ++ step :: after, s.replaces = false)
    (he : before ++ step :: after = before' ++ step' :: after') (hc : step.CreatesDefault (d.after before))
    (hc' : step'.CreatesDefault (d.after before')) : before' = before := by
  have first : ∀ {xs ys us vs : List Step} {x y : Step}, xs ++ x :: us = ys ++ y :: vs →
      (∀ s ∈ xs ++ x :: us, s.replaces = false) → x.CreatesDefault (d.after xs) →
      y.CreatesDefault (d.after ys) → xs.length ≤ ys.length → ys = xs := by
    intro xs ys us vs x y he h hx hy hl
    obtain ⟨mid, rfl⟩ := List.prefix_of_prefix_length_le (List.prefix_append xs _) (he ▸ List.prefix_append ys _) hl
    rw [List.append_assoc] at he
    cases mid with
    | nil => exact List.append_nil xs
    | cons z mid =>
      have hz : x = z := (List.cons.inj (List.append_cancel_left he)).1
      subst hz
      refine absurd hy (hd.not_creates_again (fun s hs => h s ?_) hx)
      rw [he, ← List.append_assoc]
      exact List.mem_append_left _ hs
  rcases Nat.le_total before.length before'.length with hl | hl
  · exact first he h hc hc' hl
  · exact (first he.symm (he ▸ h) hc' hc hl).symm

theorem WellFormed.warnings_length (hd : d.WellFormed) (h : ∀ step ∈ steps, step.replaces = false) :
    (ofLevel .warn (d.log steps)).length ≤ 1 := by
  induction steps generalizing d with
  | nil => simp [log, Draft.run, ofLevel]
  | cons step steps ih =>
    obtain ⟨hs, hsteps⟩ := List.forall_mem_cons.mp h
    have hd' := (step.change d).wellFormed hd
    rw [log_cons, LogRecord.ofLevel_append]
    by_cases hw : ofLevel .warn (step.run d).log = []
    · rw [hw, List.nil_append]
      exact ih hd' hsteps
    · have hc := ((Step.warnings_run hd hs).mp hw).1
      obtain ⟨raw, hb⟩ := Step.begins_default hd hs hc
      rw [hd'.warnings_of_default hsteps hc.2, List.append_nil, hb.warnings]
      split <;> simp

end Draft

/-! ## Operations -/

namespace Operation
variable {d d' : Draft} {op : Operation} {ops before after : List Operation} {i : Nat} {log : List LogRecord}

/-- An operation that is applied does what a step does. -/
theorem exists_step (h : op.apply d = .ok (log, d')) :
    ∃ step : Step, step.replaces = false ∧ (step.run d).log = log ∧ (step.run d).draft = d' := by
  have of_run : ∀ (step : Step) (answer : Except Fault Answer), step.replaces = false →
      step.run d = ⟨answer, log, d'⟩ →
      ∃ step : Step, step.replaces = false ∧ (step.run d).log = log ∧ (step.run d).draft = d' := by
    intro step answer hs run
    exact ⟨step, hs, by rw [run], by rw [run]⟩
  -- each operation is one step, on content with tokens for its delimiters
  cases op with
  | event state e idents =>
    apply of_run (.registerEvent state e idents) (.ok .done) rfl
    rw [Step.run, show d.registerEvent state e idents = .ok (log, d') from h]
    rfl
  | eventLine state e line =>
    obtain ⟨d₁, hd, he⟩ := bind_ok_iff.mp h
    cases he
    apply of_run (.addEventLine state e (Placeholder.encode line)) (.ok .done) rfl
    rw [Step.run, hd]
    rfl
  | call state e spec =>
    obtain ⟨c, -, h⟩ := bind_ok_iff.mp h
    obtain ⟨d₁, hd, he⟩ := bind_ok_iff.mp h
    cases he
    apply of_run (.addCall state e c) (.ok .done) rfl
    rw [Step.run, hd]
    rfl
  | function name groups =>
    obtain ⟨⟨f, d₁⟩, hd, he⟩ := bind_ok_iff.mp h
    cases he
    apply of_run (.defineFunctionOfPairs name groups) (.ok (.function f)) rfl
    rw [Step.run, hd]
    rfl
  | functionLine name line =>
    obtain ⟨d₁, hd, he⟩ := bind_ok_iff.mp h
    cases he
    apply of_run (.addFunctionLine name (Placeholder.encode line)) (.ok .done) rfl
    rw [Step.run, hd]
    rfl
  | functionBlankLine name =>
    obtain ⟨d₁, hd, he⟩ := bind_ok_iff.mp h
    cases he
    apply of_run (.addBlankLine name) (.ok .done) rfl
    rw [Step.run, hd]
    rfl

theorem log_cons_ok (h : op.apply d = .ok (log, d')) :
    (applyFrom i d (op :: ops)).1 = log ++ .applied i op.name :: (applyFrom (i + 1) d' ops).1 := by
  rw [applyFrom, h]

theorem log_cons_error {fault : Fault} (h : op.apply d = .error fault) : (applyFrom i d (op :: ops)).1 = [] := by
  rw [applyFrom, h]

theorem log_append (more : List Operation) : ∀ {ops : List Operation} {i : Nat} {d : Draft},
    (applyFrom i d ops).2 = .ok d' →
    (applyFrom i d (ops ++ more)).1 = (applyFrom i d ops).1 ++ (applyFrom (i + ops.length) d' more).1
  | [], i, d, h => by
    cases h
    rfl
  | op :: ops, i, d, h => by
    cases ha : op.apply d with
    | error fault =>
      rw [applyFrom_cons_error ha] at h
      cases h
    | ok r =>
      obtain ⟨log, d₁⟩ := r
      rw [applyFrom_cons_ok ha] at h
      rw [List.cons_append, log_cons_ok ha, log_cons_ok ha, log_append more h, List.append_assoc, List.length_cons,
        Nat.add_right_comm, ← Nat.add_assoc]
      rfl

theorem exists_steps : ∀ (ops : List Operation) (i : Nat) (d : Draft),
    ∃ steps : List Step, (∀ step ∈ steps, step.replaces = false) ∧
      ofLevel .warn (applyFrom i d ops).1 = ofLevel .warn (d.log steps)
  | [], i, d => ⟨[], by simp, rfl⟩
  | op :: ops, i, d => by
    cases ha : op.apply d with
    | error fault =>
      rw [log_cons_error ha]
      exact ⟨[], by simp, rfl⟩
    | ok r =>
      obtain ⟨log, d₁⟩ := r
      obtain ⟨step, hs, hl, hd⟩ := exists_step ha
      obtain ⟨steps, hsteps, same⟩ := exists_steps ops (i + 1) d₁
      refine ⟨step :: steps, List.forall_mem_cons.mpr ⟨hs, hsteps⟩, ?_⟩
      rw [log_cons_ok ha, Draft.log_cons, hl, hd, LogRecord.ofLevel_append, LogRecord.ofLevel_append, ← same]
      rfl

theorem debug_apply (hd : d.WellFormed) (h : op.apply d = .ok (log, d')) : ofLevel .debug log = [] := by
  obtain ⟨step, hs, rfl, -⟩ := exists_step h
  rcases Step.begins_or_quiet hd hs with ⟨raw, name, hb⟩ | hq
  · rw [hb.log]
    cases raw.isBlank <;> rfl
  · rw [hq.log]
    rfl

theorem debug_applyFrom : ∀ {ops : List Operation} {i : Nat} {d : Draft}, d.WellFormed →
    (applyFrom i d ops).2 = .ok d' →
    ofLevel .debug (applyFrom i d ops).1 = (ops.zipIdx i).map fun (op, j) => .applied j op.name
  | [], i, d, _, _ => rfl
  | op :: ops, i, d, hd, h => by
    cases ha : op.apply d with
    | error fault =>
      rw [applyFrom_cons_error ha] at h
      cases h
    | ok r =>
      obtain ⟨log, d₁⟩ := r
      rw [applyFrom_cons_ok ha] at h
      have rest := debug_applyFrom (wellFormed_apply hd ha) h
      rw [log_cons_ok ha, LogRecord.ofLevel_append, debug_apply hd ha, List.zipIdx_cons, List.map_cons, ← rest]
      rfl

/-- Whether the operation at an index is applied in the run of a recipe. -/
def isApplied (ops : List Operation) (i : Nat) : Bool :=
  match resultAt ops i with
  | some (.ok _) => true
  | _ => false

theorem isApplied_of_ok {done rest : List Operation} (h : (applyFrom 0 .empty done).2 = .ok d)
    (hi : i < done.length) :
    isApplied (done ++ rest) i = true := by
  obtain ⟨r, hr⟩ : ∃ r, resultAt (done ++ rest) i = some (.ok r) := resultAt_of_ok h hi
  rw [isApplied, hr]

theorem isApplied_of_refused {fault : Fault} (h : (applyFrom 0 .empty before).2 = .ok d)
    (hr : op.apply d = .error fault) (hi : before.length ≤ i) : isApplied (before ++ op :: after) i = false := by
  by_cases he : i = before.length
  · rw [isApplied, he, resultAt_append h, hr]
  · have behind : (before ++ op :: after).take i = before ++ op :: after.take (i - before.length - 1) := by
      rw [List.take_append, List.take_of_length_le hi, List.take_cons (by omega)]
    have ends : (applyFrom 0 .empty ((before ++ op :: after).take i)).2.toOption = none := by
      rw [behind, applyFrom_append, h, Except.bind, applyFrom_cons_error hr]
      rfl
    simp [isApplied, resultAt, ends]

end Operation

namespace Recipe

theorem debug_build (r : Recipe) :
    ofLevel .debug r.build.1 =
      (r.operations.zipIdx.filter fun (_, i) => Operation.isApplied r.operations i).map
        fun (op, i) => .applied i op.name := by
  obtain ⟨version, ops⟩ := r
  have applied : ∀ {done : List Operation} (rest : List Operation) {d : Draft},
      (Operation.applyFrom 0 .empty done).2 = .ok d →
      (done.zipIdx.filter fun (_, i) => Operation.isApplied (done ++ rest) i) = done.zipIdx := by
    intro done rest d h
    apply List.filter_eq_self.mpr
    intro ⟨op, i⟩ hm
    exact Operation.isApplied_of_ok h (List.snd_lt_of_mem_zipIdx hm)
  rw [build]
  cases run : (Operation.applyFrom 0 .empty ops).2 with
  | ok d =>
    have all := applied [] run
    rw [List.append_nil] at all
    rw [all, Operation.debug_applyFrom Draft.wellFormed_empty run]
  | error failure =>
    obtain ⟨before, op, after, d, fault, rfl, hb, hr, -⟩ := Operation.exists_refused run
    -- the operation that is refused and those behind it are not applied and leave no record
    have behind : ((op :: after).zipIdx before.length).filter
        (fun (_, i) => Operation.isApplied (before ++ op :: after) i) = [] := by
      apply List.filter_eq_nil_iff.mpr
      intro ⟨op', i⟩ hm
      simp [Operation.isApplied_of_refused hb hr (List.le_snd_of_mem_zipIdx hm)]
    rw [Operation.log_append _ hb, Operation.log_cons_error hr, List.append_nil]
    rw [Operation.debug_applyFrom Draft.wellFormed_empty hb]
    rw [List.zipIdx_append, List.filter_append, applied _ hb, Nat.zero_add, behind, List.append_nil]

theorem warnings_build (r : Recipe) : (ofLevel .warn r.build.1).length ≤ 1 := by
  obtain ⟨steps, h, same⟩ := Operation.exists_steps r.operations 0 .empty
  rw [build, same]
  exact Draft.wellFormed_empty.warnings_length h

end Recipe

namespace Draft

/-- Steps that do not replace the document log at most one warning: with the event that writes the default state, if
its state was not named. This happens once. A recipe logs at most one warning, and of its operations those that are
applied. -/
theorem warnings_once :
    (∀ steps : List Step, (∀ step ∈ steps, step.replaces = false) →
      (ofLevel .warn (empty.log steps)).length ≤ 1 ∧
      ∀ before step after, steps = before ++ step :: after →
        let d := empty.after before
        (ofLevel .warn (step.run d).log ≠ [] ↔
          step.CreatesDefault d ∧ ∃ raw e idents, step = .registerEvent raw e idents ∧ raw.isBlank = true) ∧
        (step.CreatesDefault d →
          (∃ raw e idents, step = .registerEvent raw e idents ∧ (step.run d).answer = .ok .done ∧
            StateName.ofText raw = .ok .default ∧
            ofLevel .warn (empty.log steps) = if raw.isBlank then [.stateNotNamed] else []) ∧
          ∀ before' step' after', steps = before' ++ step' :: after' →
            step'.CreatesDefault (empty.after before') → before' = before)) ∧
    ∀ r : Recipe, (ofLevel .warn r.build.1).length ≤ 1 ∧
      ofLevel .debug r.build.1 =
        (r.operations.zipIdx.filter fun (_, i) => Operation.isApplied r.operations i).map
          fun (op, i) => .applied i op.name := by
  refine ⟨fun steps h => ⟨wellFormed_empty.warnings_length h, ?_⟩, fun r => ⟨r.warnings_build, r.debug_build⟩⟩
  intro before step after hsteps d
  subst hsteps
  have hd : d.WellFormed := wellFormed_empty.after before
  have hs : step.replaces = false := h step (by simp)
  refine ⟨Step.warnings_run hd hs, fun hc => ⟨?_, ?_⟩⟩
  · obtain ⟨raw, hb⟩ := Step.begins_default hd hs hc
    obtain ⟨e, idents, call⟩ := hb.call
    refine ⟨raw, e, idents, call, hb.answer, hb.named, ?_⟩
    rw [wellFormed_empty.warnings_split h hc, hb.warnings]
  · intro before' step' after' he hc'
    exact wellFormed_empty.creates_unique h he hc hc'

/-- The default state is declared, refused and then written without a name; and it is written under its name. -/
theorem warnings_once_blank :
    let before : List Step :=
      [.declareState "default", .registerEvent " " .timer (some ["x"]), .registerEvent "two" .timer none]
    let event : Step := .registerEvent "\t" .timer none
    let after : List Step :=
      [.registerEvent "" .timer none, .registerEvent "" .touch none, .addEventLine "" .touch "x;"]
    let named : List Step := .registerEvent "default" .timer none :: after
    (∀ step ∈ before ++ event :: after, step.replaces = false) ∧ (∀ step ∈ named, step.replaces = false) ∧
      event.CreatesDefault (empty.after before) ∧
      ofLevel .warn (event.run (empty.after before)).log ≠ [] ∧
      (ofLevel .warn (empty.log (before ++ event :: after))).length ≤ 1 ∧
      ofLevel .warn (empty.log named) = [] := by
  intro before event after named
  have kept : ∀ step ∈ before ++ event :: after, step.replaces = false := by decide
  have keptNamed : ∀ step ∈ named, step.replaces = false := by decide
  have creates : event.CreatesDefault (empty.after before) := ⟨by decide +kernel, by decide +kernel⟩
  have createsNamed : (Step.registerEvent "default" .timer none).CreatesDefault empty :=
    ⟨by decide, by decide +kernel⟩
  obtain ⟨length, places⟩ := warnings_once.1 _ kept
  have warns := (places before event after rfl).1.mpr ⟨creates, "\t", .timer, none, rfl, rfl⟩
  obtain ⟨⟨raw, e, idents, call, -, -, silent⟩, -⟩ :=
    ((warnings_once.1 _ keptNamed).2 [] _ after rfl).2 createsNamed
  cases call
  exact ⟨kept, keptNamed, creates, warns, length, silent⟩

end Draft

end LslScript
