import LslScript.Text.Basic

/-!
# Lines

A text is read as lines that each end with a newline, where the newline of the last one may be
missing.
-/

namespace LslScript.Text

def lines (t : Text) : List Text :=
  if t.getLast? = some '\n' then (t.splitOn '\n').dropLast else t.splitOn '\n'

def unlines (ls : List Text) : Text := ls.flatMap (· ++ ['\n'])

end LslScript.Text
