import LslScript.Fault

/-! # Key literals -/

namespace LslScript

/-- A key: nothing, or letters and digits in groups of 8, 4, 4, 4 and 12 joined by hyphens. -/
structure Key where
  text : Text
deriving DecidableEq

namespace Key

def groupLengths : List Nat := [8, 4, 4, 4, 12]

def isKey (t : Text) : Bool :=
  let groups := t.splitOn '-'
  t.isEmpty || (groups.map List.length == groupLengths && groups.all (·.all Char.isAlphanum))

def ofText (raw : Text) : Except Fault Key := if isKey raw then .ok ⟨raw⟩ else .error (.key raw)

end Key

end LslScript
