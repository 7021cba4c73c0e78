import LslScript.Script.Layout

/-!
# Headers

What a line must look like to head a function or an event: the name and a pair of parentheses, with
nothing but blanks behind the last one that closes.
-/

namespace LslScript.Header

/-- What stands between a parenthesis in front and the one behind which all is blank. -/
def between? : Text → Option Text
  | '(' :: rest => Text.before? ")" (Text.trimEnd rest)
  | _ => none

def function? (line : Text) : Option (Text × Text) :=
  let name := line.takeWhile isIdentifierChar
  if isIdentifier name then
    (between? (line.dropWhile isIdentifierChar)).map fun params => (name, params)
  else none

def isEventNameChar (c : Char) : Bool := c.isLower || c == '_'

/-- The name and the text between the parentheses of an event's header, which is indented once. -/
def event? (line : Text) : Option (Text × Text) :=
  match Text.after? indentUnit line with
  | none => none
  | some rest =>
    let name := rest.takeWhile isEventNameChar
    if name.isEmpty then none
    else (between? (rest.dropWhile isEventNameChar)).map fun params => (name, params)

end LslScript.Header
