import LslScript.Proofs.Reload
import LslScript.Proofs.Running

/-!
# Recipes in parts

A recipe can be cut anywhere (`Recipe.render_append`). If the first part fails, the whole fails in the
same way, at the first operation that is refused after those in front of it. If the first part succeeds, the
second part does to the draft read from the document what it does to the draft that was written: the two
are alike, and operations cannot tell alike drafts apart.
-/

namespace LslScript

def Failure.shift (n : Nat) : Failure → Failure
  | operation i name fault => operation (n + i) name fault
  | failure => failure

namespace Operation

/-- What the operation at an index comes to after those in front of it, if they are all applied. -/
def resultAt (ops : List Operation) (i : Nat) : Option (Except Fault (List LogRecord × Draft)) := do
  let op ← ops[i]?
  let d ← (applyFrom 0 .empty (ops.take i)).2.toOption
  return op.apply d

variable {d d₁ d₂ d' : Draft} {i : Nat} {ops : List Operation}

theorem exists_refused {failure : Failure} : ∀ {ops : List Operation} {i : Nat} {d : Draft},
    (applyFrom i d ops).2 = .error failure → ∃ before op after d' fault, ops = before ++ op :: after ∧
      (applyFrom i d before).2 = .ok d' ∧ op.apply d' = .error fault ∧
      failure = .operation (i + before.length) op.name fault
  | [], i, d, h => by cases h
  | op :: ops, i, d, h => by
    cases ha : op.apply d with
    | error fault =>
      rw [applyFrom_cons_error ha] at h
      cases h
      exact ⟨[], op, ops, d, fault, rfl, rfl, ha, rfl⟩
    | ok r =>
      obtain ⟨log, d₁⟩ := r
      rw [applyFrom_cons_ok ha] at h
      obtain ⟨before, op', after, d', fault, rfl, hb, hr, rfl⟩ := exists_refused h
      refine ⟨op :: before, op', after, d', fault, rfl, (applyFrom_cons_ok ha).trans hb, hr, ?_⟩
      rw [List.length_cons, Nat.add_right_comm, Nat.add_assoc]

theorem resultAt_append {before after : List Operation} {op : Operation}
    (h : (applyFrom 0 .empty before).2 = .ok d) :
    resultAt (before ++ op :: after) before.length = some (op.apply d) := by
  simp [resultAt, h, Except.toOption]

/-- The operations of a run that ends were all applied. -/
theorem resultAt_of_ok {done rest : List Operation} (h : (applyFrom 0 .empty done).2 = .ok d) {j : Nat}
    (hj : j < done.length) : ∃ r, resultAt (done ++ rest) j = some (.ok r) := by
  obtain ⟨before, op, after, rfl, rfl⟩ : ∃ before op after, done = before ++ op :: after ∧ before.length = j :=
    ⟨done.take j, done[j], done.drop (j + 1), by simp, by simp [hj.le]⟩
  -- up to `j` the run ends as well, and it goes on behind `op`
  rw [applyFrom_append] at h
  cases hb : (applyFrom 0 .empty before).2 with
  | error failure =>
    rw [hb] at h
    cases h
  | ok d₁ =>
    rw [hb] at h
    rw [List.append_assoc, List.cons_append, resultAt_append hb]
    cases ha : op.apply d₁ with
    | error fault =>
      rw [Except.bind, applyFrom_cons_error ha] at h
      cases h
    | ok r => exact ⟨r, rfl⟩

theorem applyFrom_shift (n : Nat) : ∀ {ops : List Operation} {i : Nat} {d : Draft},
    (applyFrom (n + i) d ops).2 = (applyFrom i d ops).2.mapError (Failure.shift n)
  | [], i, d => rfl
  | op :: ops, i, d => by
    cases h : op.apply d with
    | error fault =>
      rw [applyFrom_cons_error h, applyFrom_cons_error h]
      rfl
    | ok r =>
      obtain ⟨log, d'⟩ := r
      rw [applyFrom_cons_ok h, applyFrom_cons_ok h, Nat.add_assoc, applyFrom_shift n]

theorem alike_edit {x y : Except Fault Draft} (h : SameResult Draft.Alike x y) {log : List LogRecord} :
    SameResult Draft.AlikeWith (x >>= fun d => .ok (log, d)) (y >>= fun d => .ok (log, d)) :=
  h.bind fun _ _ hd => .ok ⟨rfl, hd⟩

theorem alike_apply (h : d₁.Alike d₂) (op : Operation) :
    SameResult Draft.AlikeWith (op.apply d₁) (op.apply d₂) := by
  cases op with
  | event state e idents => exact h.registerEvent state e idents
  | eventLine state e line => exact alike_edit (h.addEventLine state e _)
  | call state e spec => exact .bind_same fun c => alike_edit (h.addEventLine state e c.render)
  | function name groups =>
    refine SameResult.bind (R := Draft.AlikeWith) ?_ fun a b hab => .ok ⟨rfl, hab.2⟩
    exact .bind_same fun ps => h.defineFunction name ps
  | functionLine name line => exact alike_edit (h.addFunctionLine name _)
  | functionBlankLine name => exact alike_edit (h.appendToFunction name [[]])

theorem document_applyFrom : ∀ {ops : List Operation} {i : Nat} {d₁ d₂ : Draft}, d₁.Alike d₂ →
    (applyFrom i d₁ ops).2.map Draft.document = (applyFrom i d₂ ops).2.map Draft.document
  | [], i, d₁, d₂, h => congrArg Except.ok h.document
  | op :: ops, i, d₁, d₂, h => by
    have same := alike_apply h op
    generalize h₁ : op.apply d₁ = x at same
    generalize h₂ : op.apply d₂ = y at same
    cases same with
    | error fault => rw [applyFrom_cons_error h₁, applyFrom_cons_error h₂]
    | @ok r₁ r₂ hr =>
      obtain ⟨log₁, d₁'⟩ := r₁
      obtain ⟨log₂, d₂'⟩ := r₂
      rw [applyFrom_cons_ok h₁, applyFrom_cons_ok h₂]
      exact document_applyFrom hr.2

end Operation

/-! ## Recipes -/

theorem Recipe.render_append (version : Text) (ops more : List Operation) :
    (∀ failure, (render ⟨version, ops⟩).2 = .error failure →
      (render ⟨version, ops ++ more⟩).2 = .error failure ∧
      ∃ i op fault, failure = .operation i op.name fault ∧ ops[i]? = some op ∧
        Operation.resultAt ops i = some (.error fault) ∧
        ∀ j < i, ∃ r, Operation.resultAt ops j = some (.ok r)) ∧
    ∀ doc, (render ⟨version, ops⟩).2 = .ok doc →
      ∃ d, (∀ d₀, (Step.setDocument doc).run d₀ = ⟨.ok .done, [], d⟩) ∧
        (render ⟨version, ops ++ more⟩).2 =
          ((Operation.applyFrom 0 d more).2.mapError (.shift ops.length)).map Draft.document := by
  have whole : (render ⟨version, ops ++ more⟩).2 = ((Operation.applyFrom 0 .empty ops).2.bind fun d =>
      (Operation.applyFrom (0 + ops.length) d more).2).map Draft.document :=
    congrArg (Except.map Draft.document) (Operation.applyFrom_append more)
  have part : (render ⟨version, ops⟩).2 = (Operation.applyFrom 0 .empty ops).2.map Draft.document := rfl
  rw [whole, part]
  cases run : (Operation.applyFrom 0 .empty ops).2 with
  | error failure =>
    refine ⟨fun _ h => ?_, nofun⟩
    cases h
    refine ⟨rfl, ?_⟩
    obtain ⟨before, op, after, d, fault, rfl, applied, refused, rfl⟩ := Operation.exists_refused run
    refine ⟨before.length, op, fault, by rw [Nat.zero_add], by simp, ?_, fun j hj => ?_⟩
    · rw [Operation.resultAt_append applied, refused]
    · exact Operation.resultAt_of_ok applied hj
  | ok d =>
    refine ⟨nofun, fun _ h => ?_⟩
    cases h
    have written : d.WellFormed := Operation.wellFormed_applyFrom Draft.wellFormed_empty run
    -- what is read back has another registry, which no later operation tells apart
    have read : Draft.Alike d ⟨.ofScript d.script, d.script⟩ :=
      written.alike (Draft.wellFormed_ofScript written.script) rfl
    refine ⟨⟨.ofScript d.script, d.script⟩, fun d₀ => ?_, ?_⟩
    · rw [Step.run, written.ofDocument_document]
      rfl
    · calc ((Except.ok d).bind fun d => (Operation.applyFrom (0 + ops.length) d more).2).map Draft.document
        _ = (Operation.applyFrom (ops.length + 0) d more).2.map Draft.document := by
            rw [Nat.add_comm]
            rfl
        _ = (Operation.applyFrom (ops.length + 0) ⟨.ofScript d.script, d.script⟩ more).2.map Draft.document :=
            Operation.document_applyFrom read
        _ = _ := by rw [Operation.applyFrom_shift]

/-- A first part that fails, and one that ends with a document. -/
theorem Recipe.render_append_missing_state :
    let first : List Operation := [.event "" .timer none]
    let refused : List Operation := [.eventLine "missing" .timer "x();"]
    let more : List Operation := [.eventLine "" .timer "y();"] ++ refused
    let doc : Text := "default\n\x7b\n    timer()\n    \x7b\n" ++
      "    \x7d  // End of 'timer' event\n\n\x7d  // End of 'default' state\n\n".toList
    (render ⟨schema, first ++ refused ++ more⟩).2 =
      .error (.operation 1 "eventLine" (.noState "state missing")) ∧
    ∃ d, (∀ d₀, (Step.setDocument doc).run d₀ = ⟨.ok .done, [], d⟩) ∧
      (render ⟨schema, first ++ more⟩).2 =
        ((Operation.applyFrom 0 d more).2.mapError (.shift 1)).map Draft.document ∧
      (render ⟨schema, first ++ more⟩).2 =
        .error (.operation 2 "eventLine" (.noState "state missing")) := by
  intro first refused more doc
  obtain ⟨fails, -⟩ := render_append schema (first ++ refused) more
  obtain ⟨-, resumes⟩ := render_append schema first more
  obtain ⟨d, loaded, result⟩ := resumes doc (by decide +kernel)
  exact ⟨(fails _ (by decide +kernel)).1, d, loaded, result, by decide +kernel⟩

end LslScript
