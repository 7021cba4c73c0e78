import LslScript.Fault
import LslScript.Identifier

/-!
# State names

A state is named by an identifier, and the state in which a script begins is named `default`. The
label that heads a state's block is `default` for this one and `state` with the name for the others.
-/

namespace LslScript

structure StateName where
  text : Text
deriving DecidableEq

namespace StateName

def default : StateName := ⟨"default"⟩

/-- Reads a name as a caller writes it; a blank one means `default`. -/
def ofText (raw : Text) : Except Fault StateName :=
  let name := raw.trim
  if name.isEmpty then .ok default
  else if name.any isBlankChar then .error (.spacedState name)
  else if isIdentifier name then .ok ⟨name⟩
  else .error (.badState name)

def label (n : StateName) : Text := if n = default then n.text else "state " ++ n.text

def ofLabel? (line : Text) : Option StateName :=
  if line = default.text then some default
  else
    match Text.after? "state " line with
    | some name => if name ≠ default.text ∧ isIdentifier name then some ⟨name⟩ else none
    | none => none

end StateName

end LslScript
