import LslScript.Proofs.Edits

/-!
# The line that is reported

A text that is no script is reported at its first line that no script can have there. Together with the lines in
front of it this line begins no script (`Reading.readFrom_refused`); without it they begin some script, because a
few lines close whatever is open (`Reading.readAll_closing`). A text that ends too early is reported behind its
last line.
-/

namespace LslScript

def Place.closing : Place → List Text
  | .outside => []
  | .functionOpening _ _ | .stateOpening _ => [opening, "\x7d"]
  | .functionBody _ _ _ | .stateBody _ _ => ["\x7d"]
  | .eventOpening _ _ _ _ => [indentUnit ++ opening, indentUnit ++ "\x7d", "\x7d"]
  | .eventBody _ _ _ _ _ => [indentUnit ++ "\x7d", "\x7d"]

namespace Reading
variable {r r' : Reading} {number : Nat} {ls before : List Text} {fault : Fault} {defect : Defect}

/-- Reading fails at a line that cannot follow those before it, or behind the last line. -/
theorem exists_refused : ∀ {ls : List Text} {r : Reading} {number : Nat}, r.readFrom number ls = .error fault →
    ∃ before after r' defect, ls = before ++ after ∧ r.readAll before = .ok r' ∧
      fault = .layout (number + before.length) defect ∧
      (after = [] ∨ ∃ line rest, after = line :: rest ∧ r'.next line = .error defect)
  | [], r, number, h => by
    rw [readFrom] at h
    cases hf : r.finish with
    | ok s =>
      rw [hf] at h
      cases h
    | error defect =>
      rw [hf] at h
      cases h
      exact ⟨[], [], r, defect, rfl, rfl, rfl, .inl rfl⟩
  | line :: ls, r, number, h => by
    rw [readFrom] at h
    cases hn : r.next line with
    | ok r₁ =>
      rw [hn] at h
      obtain ⟨before, after, r', defect, rfl, read, rfl, stop⟩ := exists_refused h
      refine ⟨line :: before, after, r', defect, rfl, (readAll_cons hn before).trans read, ?_, stop⟩
      rw [List.length_cons, Nat.add_assoc, Nat.add_comm 1]
    | error defect =>
      rw [hn] at h
      cases h
      exact ⟨[], line :: ls, r, defect, rfl, rfl, rfl, .inr ⟨line, ls, rfl, hn⟩⟩

end Reading

namespace Draft

end Draft

end LslScript
