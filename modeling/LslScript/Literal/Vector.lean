import LslScript.Literal.Components

/-! # Vectors and rotations -/

namespace LslScript

structure Vector where
  x : Binary64
  y : Binary64
  z : Binary64
deriving DecidableEq

namespace Vector

def components (v : Vector) : List Binary64 := [v.x, v.y, v.z]

def text (v : Vector) : Text := Bracketed.text v.components

def ofText (raw : Text) : Except Fault Vector :=
  match Bracketed.vector.components raw with
  | .ok [x, y, z] => .ok ⟨x, y, z⟩
  | .ok _ => .error (.notBracketed .vector raw)
  | .error fault => .error fault

end Vector

structure Rotation where
  x : Binary64
  y : Binary64
  z : Binary64
  s : Binary64
deriving DecidableEq

namespace Rotation

def components (r : Rotation) : List Binary64 := [r.x, r.y, r.z, r.s]

def text (r : Rotation) : Text := Bracketed.text r.components

def ofText (raw : Text) : Except Fault Rotation :=
  match Bracketed.rotation.components raw with
  | .ok [x, y, z, s] => .ok ⟨x, y, z, s⟩
  | .ok _ => .error (.notBracketed .rotation raw)
  | .error fault => .error fault

end Rotation

end LslScript
