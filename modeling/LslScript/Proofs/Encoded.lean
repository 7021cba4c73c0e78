import LslScript.Proofs.Anchors
import LslScript.Proofs.Calls
import LslScript.Proofs.Generated
import LslScript.Proofs.Resuming

/-!
# Content that is encoded

Encoded text is plain, and so is every call that a recipe can write: numbers and keys have no delimiters and
literals are encoded. A recipe closes all its blocks with sentinels. So no operation is refused for its
content or for a missing end of a block (`Recipe.code_of_build_error`).
-/

namespace LslScript

theorem WrittenCall.plain_render {spec : WrittenCall} {c : Call} (h : spec.toCall = .ok c) :
    Text.Plain c.render := by
  cases spec with
  | say channel message =>
    cases h
    exact Call.plain_render rfl
  | listen channel name id message embed =>
    obtain ⟨key, -, h⟩ := bind_ok_iff.mp h
    cases h
    exact Call.plain_render rfl
  | setColor color face =>
    obtain ⟨v, -, h⟩ := bind_ok_iff.mp h
    cases h
    exact Call.plain_render rfl
  | raw text =>
    cases h
    exact Placeholder.plain_encode text

/-! ## Faults of operations -/

theorem Text.Plain.faultsIn_bodyLines {content : Text} (h : Plain content) (depth : Nat) :
    FaultsIn Fault.OfInput (bodyLines depth content) := by
  unfold bodyLines
  rw [h.firstDelimiter?_eq_none]
  split
  · exact .ok _
  · exact .ok _

theorem Key.faultsIn_ofText (raw : Text) : FaultsIn Fault.OfInput (ofText raw) := by
  unfold ofText
  split
  · exact .ok _
  · exact .error trivial

theorem Bracketed.faultsIn_components (literal : Bracketed) (raw : Text) :
    FaultsIn Fault.OfInput (literal.components raw) := by
  unfold components
  split
  · refine .mapM (fun part => ?_) _
    split
    · exact .ok _
    · exact .error trivial
  · exact .error trivial

theorem Vector.faultsIn_ofText (raw : Text) : FaultsIn Fault.OfInput (ofText raw) := by
  unfold ofText
  split
  · exact .ok _
  · exact .error trivial
  · rename_i fault hf
    exact .error (Bracketed.faultsIn_components .vector raw fault hf)

theorem WrittenCall.faultsIn_toCall (spec : WrittenCall) : FaultsIn Fault.OfInput spec.toCall := by
  cases spec with
  | say channel message => exact .ok _
  | listen channel name id message embed => exact (Key.faultsIn_ofText id).bind fun key => .ok _
  | setColor color face => exact (Vector.faultsIn_ofText color).bind fun v => .ok _
  | raw text => exact .ok _

namespace Script.Generated
variable {s : Script} (h : s.Generated)
include h

theorem function?_ending {name : Text} {b : FunctionDef} (hf : s.function? name = some b) :
    b.ending = .sentinel := (h.functions b (List.mem_of_find?_eq_some hf)).ending

theorem handler?_ending {name : StateName} {state : StateDef} {e : Event} {b : Handler}
    (hs : s.state? name = some state) (hb : state.handler? e = some b) : b.ending = .sentinel :=
  ((h.states state (List.mem_of_find?_eq_some hs)).handlers b (List.mem_of_find?_eq_some hb)).ending

end Script.Generated

namespace Operation
variable {d d' : Draft}

theorem faultsIn_apply (hw : d.WellFormed) (hg : d.script.Generated) (op : Operation) :
    FaultsIn Fault.OfInput (op.apply d) := by
  have input : ∀ fault : Fault, fault.OfInput → fault.OfInput := fun _ h => h
  -- a line without delimiters is not refused, and a generated block never lacks its end
  have event : ∀ (raw : Text) (e : Event) {content : Text}, Text.Plain content →
      FaultsIn Fault.OfInput (d.addEventLine raw e content) := fun raw e _ hp =>
    Draft.faultsIn_addEventLine input raw (hp.faultsIn_bodyLines 2)
      fun _ _ _ hs hb => Or.inl (hg.handler?_ending hs hb)
  cases op with
  | event state e params => exact hw.faultsIn_registerEvent state e params
  | eventLine state e line => exact (event state e (Placeholder.plain_encode line)).bind fun d' => .ok _
  | call state e spec =>
    intro fault h
    cases hc : spec.toCall with
    | error cause =>
      simp only [apply, bind, Except.bind, hc] at h
      cases h
      exact spec.faultsIn_toCall fault hc
    | ok c =>
      simp only [apply, bind, Except.bind, hc] at h
      exact (event state e (WrittenCall.plain_render hc)).bind (fun d' => .ok ([], d')) fault h
  | function name groups => exact (Draft.faultsIn_defineFunctionOfPairs name groups).bind fun r => .ok _
  | functionLine name line =>
    refine (Draft.faultsIn_addFunctionLine input ?_ ?_).bind fun d' => .ok _
    · exact (Placeholder.plain_encode line).faultsIn_bodyLines 1
    · exact fun b hf => Or.inl (hg.function?_ending hf)
  | functionBlankLine name =>
    refine (Draft.faultsIn_appendToFunction input [[]] ?_).bind fun d' => .ok _
    exact fun b hf => Or.inl (hg.function?_ending hf)

theorem generated_apply {op : Operation} {log : List LogRecord} (hw : d.WellFormed)
    (hg : d.script.Generated) (h : op.apply d = .ok (log, d')) : d'.script.Generated :=
  (change h).generated hw hg fun _ hl => hl.elim

theorem generated_applyFrom : ∀ {ops : List Operation} {i : Nat} {d : Draft}, d.WellFormed →
    d.script.Generated → (applyFrom i d ops).2 = .ok d' → d'.script.Generated
  | [], i, d, hw, hg, h => by
    cases h
    exact hg
  | op :: ops, i, d, hw, hg, h => by
    cases ha : op.apply d with
    | error fault =>
      rw [applyFrom_cons_error ha] at h
      cases h
    | ok r =>
      obtain ⟨log, d₁⟩ := r
      rw [applyFrom_cons_ok ha] at h
      exact generated_applyFrom (wellFormed_apply hw ha) (generated_apply hw hg ha) h

end Operation

/-- The codes of content that is refused, of a block without its end and of a text that is no script. -/
def Fault.InnerCode (code : Text) : Prop :=
  code = "VALIDATION_LINE_RAW_DELIMITER".toList ∨ code = "NOT_FOUND_SENTINEL".toList ∨
    "STRUCTURAL_".toList <+: code

instance (code : Text) : Decidable (Fault.InnerCode code) := inferInstanceAs (Decidable (_ ∨ _ ∨ _))

theorem Fault.OfInput.not_innerCode {fault : Fault} (h : fault.OfInput) :
    ¬ InnerCode fault.report.code := by
  cases fault with
  | rawDelimiter _ _ => exact h.elim
  | noEventEnd _ _ => exact h.elim
  | noFunctionEnd _ => exact h.elim
  | noStateEnd _ => exact h.elim
  | layout _ _ => exact h.elim
  | param cause => cases cause <;> exact of_decide_eq_false rfl
  | notBracketed literal raw => cases literal <;> exact of_decide_eq_false rfl
  | notFloat literal part => cases literal <;> exact of_decide_eq_false rfl
  | _ => exact of_decide_eq_false rfl

namespace Recipe

/-- Whatever its texts are, a recipe fails at an operation for a name or a literal of it, and not for its
content or for the end of a block. -/
theorem code_of_build_error (r : Recipe) {failure : Failure} (h : r.build.2 = .error failure) :
    (∃ i op fault, failure = .operation i op.name fault ∧ r.operations[i]? = some op) ∧
      failure.code ≠ "VALIDATION_LINE_RAW_DELIMITER".toList ∧
      failure.code ≠ "NOT_FOUND_SENTINEL".toList ∧
      ¬ "STRUCTURAL_".toList <+: failure.code := by
  obtain ⟨before, op, after, d, fault, hops, applied, refused, rfl⟩ := Operation.exists_refused h
  have wellFormed := Operation.wellFormed_applyFrom Draft.wellFormed_empty applied
  have generated := Operation.generated_applyFrom Draft.wellFormed_empty Script.generated_empty applied
  have outer := (Operation.faultsIn_apply wellFormed generated op fault refused).not_innerCode
  simp only [Fault.InnerCode, not_or] at outer
  exact ⟨⟨_, op, fault, rfl, by simp [hops]⟩, outer⟩

/-- Lines and literals with delimiters, tokens and a sentinel, in front of an operation that is refused. -/
theorem code_of_build_error_missing_function :
    let r : Recipe := ⟨schema, [.event "" .timer none, .eventLine "" .timer "if (a) \x7b b(\"\x7d\"); \x7d",
      .call "" .timer (.say 0 "__obrace__\x7b\n\""), .function "f" [],
      .functionLine "f" "\x7d  // End of 'f' function\n\x7d", .functionLine "g" "\x7b"]⟩
    let failure : Failure := .operation 5 "functionLine" (.noFunction "g")
    r.build.2 = .error failure ∧ failure.code = "NOT_FOUND_FUNCTION".toList ∧
      failure.code ≠ "VALIDATION_LINE_RAW_DELIMITER".toList ∧
      failure.code ≠ "NOT_FOUND_SENTINEL".toList ∧
      ¬ "STRUCTURAL_".toList <+: failure.code := by
  intro r failure
  have fails : r.build.2 = .error failure := by decide +kernel
  exact ⟨fails, by decide +kernel, (code_of_build_error r fails).2⟩

end Recipe

end LslScript
