import LslScript.Binary64.Notation
import LslScript.Fault
import LslScript.Literal.Decimal

/-!
# Bracketed literals

Vectors and rotations are written as decimals between angle brackets, set apart by commas. A text is
first held against this pattern; then the parts between its commas are read.
-/

namespace LslScript.Bracketed

/-- A decimal with blanks around it, followed by `closing`; what follows then. -/
def passPart? (closing : Char) (t : Text) : Option Text :=
  match Decimal.pass? t.trimStart with
  | none => none
  | some rest =>
    match rest.trimStart with
    | c :: rest => if c = closing then some rest else none
    | [] => none

/-- Whether a text is one part more than `commas`, each but the last followed by a comma and the
last by the closing bracket, with nothing but blanks behind it. -/
def closesAfter : (commas : Nat) → Text → Bool
  | 0, t =>
    match passPart? '>' t with
    | some rest => rest.isBlank
    | none => false
  | commas + 1, t =>
    match passPart? ',' t with
    | some rest => closesAfter commas rest
    | none => false

def fits (literal : Bracketed) (raw : Text) : Bool :=
  match raw.trimStart with
  | '<' :: rest => closesAfter (literal.size - 1) rest
  | _ => false

def parts (raw : Text) : List Text :=
  let opened := raw.trim.dropWhile (· == '<')
  let inner := (opened.reverse.dropWhile (· == '>')).reverse
  (inner.splitOn ',').map Text.trim

def components (literal : Bracketed) (raw : Text) : Except Fault (List Binary64) :=
  if literal.fits raw then
    (parts raw).mapM fun part =>
      match Decimal.ofText? part with
      | some d => .ok d.toBinary64
      | none => .error (.notFloat literal part)
  else .error (.notBracketed literal raw)

def text (components : List Binary64) : Text :=
  "<" ++ List.intercalate "," (components.map Binary64.text) ++ ">"

end LslScript.Bracketed
