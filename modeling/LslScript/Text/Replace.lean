import LslScript.Text.Basic

/-!
# Replacement

Every occurrence of a word gives way to another text. Occurrences are taken from the left and do
not overlap, and what is put in is not read again.
-/

namespace LslScript.Text

/-- Replaces in a text of which the first `skip` characters belong to an occurrence already met. -/
def replaceFrom (word new : Text) : (skip : Nat) → Text → Text
  | _, [] => []
  | skip + 1, _ :: rest => replaceFrom word new skip rest
  | 0, c :: rest =>
    if word.isPrefixOf (c :: rest) then new ++ replaceFrom word new (word.length - 1) rest
    else c :: replaceFrom word new 0 rest

def replace (word new t : Text) : Text := replaceFrom word new 0 t

end LslScript.Text
