import LslScript.Proofs.Reachable
import LslScript.Recipe.Run

/-!
# Runs of operations

An operation is an edit, so it keeps drafts well-formed. A run of operations stops at the first that is
refused, and a run of two lists one after the other is a run of their concatenation (`applyFrom_append`).
-/

namespace LslScript.Operation
variable {op : Operation} {d d' : Draft} {log : List LogRecord}

theorem eventLine_ok {state line : Text} {e : Event}
    (h : (eventLine state e line).apply d = .ok (log, d')) :
    d.addEventLine state e (Placeholder.encode line) = .ok d' := by
  obtain ⟨d₁, hd, h⟩ := bind_ok_iff.mp h
  cases h
  exact hd

theorem call_ok {state : Text} {e : Event} {spec : WrittenCall}
    (h : (call state e spec).apply d = .ok (log, d')) :
    ∃ c, spec.toCall = .ok c ∧ d.addEventLine state e c.render = .ok d' := by
  obtain ⟨c, hc, h⟩ := bind_ok_iff.mp h
  obtain ⟨d₁, hd, h⟩ := bind_ok_iff.mp h
  cases h
  exact ⟨c, hc, hd⟩

theorem function_ok {name : Text} {groups : List (List Text)}
    (h : (function name groups).apply d = .ok (log, d')) :
    ∃ n ps, groups.flatten.mapM Param.ofPair = .ok ps ∧ d.defineFunction name ps = .ok (n, d') := by
  obtain ⟨⟨n, d₁⟩, hd, h⟩ := bind_ok_iff.mp h
  cases h
  obtain ⟨ps, hps, hd⟩ := bind_ok_iff.mp hd
  exact ⟨n, ps, mapError_eq_ok_iff.mp hps, hd⟩

theorem functionLine_ok {name line : Text} (h : (functionLine name line).apply d = .ok (log, d')) :
    d.addFunctionLine name (Placeholder.encode line) = .ok d' := by
  obtain ⟨d₁, hd, h⟩ := bind_ok_iff.mp h
  cases h
  exact hd

theorem functionBlankLine_ok {name : Text} (h : (functionBlankLine name).apply d = .ok (log, d')) :
    d.appendToFunction name [[]] = .ok d' := by
  obtain ⟨d₁, hd, h⟩ := bind_ok_iff.mp h
  cases h
  exact hd

/-- An operation loads no document. -/
theorem change (h : op.apply d = .ok (log, d')) : d.Change (fun _ => False) d' := by
  cases op with
  | event state e idents => exact Draft.change_registerEvent h
  | eventLine state e line => exact Draft.change_addEventLine (eventLine_ok h)
  | call state e spec =>
    obtain ⟨c, _, hd⟩ := call_ok h
    exact Draft.change_addEventLine hd
  | function name groups =>
    obtain ⟨n, ps, hps, hd⟩ := function_ok h
    rw [mapM_eq_ok_iff] at hps
    simp only [Param.ofPair_eq_ok_iff] at hps
    exact Draft.change_defineFunction (Param.isIdentifier_of_pairs hps) hd
  | functionLine name line =>
    obtain ⟨ls, hls, ⟨_, rfl⟩ | ⟨_, hd⟩⟩ := Draft.addFunctionLine_ok (functionLine_ok h)
    · exact .nothing
    · exact Draft.change_appendToFunction (not_mem_of_bodyLines hls) hd
  | functionBlankLine name =>
    refine Draft.change_appendToFunction ?_ (functionBlankLine_ok h)
    intro l hl
    rw [List.mem_singleton.mp hl]
    simp

theorem wellFormed_apply (hd : d.WellFormed) (h : op.apply d = .ok (log, d')) : d'.WellFormed :=
  (change h).wellFormed hd

/-! ## Runs -/

variable {i : Nat} {ops : List Operation}

theorem applyFrom_cons_ok (h : op.apply d = .ok (log, d')) :
    (applyFrom i d (op :: ops)).2 = (applyFrom (i + 1) d' ops).2 := by
  rw [applyFrom, h]

theorem applyFrom_cons_error {fault : Fault} (h : op.apply d = .error fault) :
    (applyFrom i d (op :: ops)).2 = .error (.operation i op.name fault) := by
  rw [applyFrom, h]

theorem applyFrom_append (more : List Operation) : ∀ {ops : List Operation} {i : Nat} {d : Draft},
    (applyFrom i d (ops ++ more)).2 =
      (applyFrom i d ops).2.bind fun d' => (applyFrom (i + ops.length) d' more).2
  | [], i, d => rfl
  | op :: ops, i, d => by
    rw [List.cons_append]
    cases h : op.apply d with
    | error fault =>
      rw [applyFrom_cons_error h, applyFrom_cons_error h]
      rfl
    | ok r =>
      obtain ⟨log, d'⟩ := r
      rw [applyFrom_cons_ok h, applyFrom_cons_ok h, applyFrom_append more, List.length_cons,
        Nat.add_right_comm, Nat.add_assoc]

theorem wellFormed_applyFrom : ∀ {ops : List Operation} {i : Nat} {d : Draft}, d.WellFormed →
    (applyFrom i d ops).2 = .ok d' → d'.WellFormed
  | [], i, d, hd, h => by
    cases h
    exact hd
  | op :: ops, i, d, hd, h => by
    cases ha : op.apply d with
    | error fault =>
      rw [applyFrom_cons_error ha] at h
      cases h
    | ok r =>
      obtain ⟨log, d₁⟩ := r
      rw [applyFrom_cons_ok ha] at h
      exact wellFormed_applyFrom (wellFormed_apply hd ha) h

end LslScript.Operation
