import LslScript.Json.Token

/-!
# Reading JSON

A value is read token by token. The arrays and objects that are open lie on a stack, each with what
was read of it, and what may come next depends on the topmost.
-/

namespace LslScript

namespace JsonReader

/-- An open array, or an open object with the name of the member whose value is being read. -/
inductive Frame
  | array (items : List Json)
  | object (members : List (Option Text × Json)) (name : Option Text)

inductive State
  | value (stack : List Frame)
  /-- An array was opened: its first item or its end is next. -/
  | firstItem (stack : List Frame)
  /-- An object was opened: its first name or its end is next. -/
  | firstName (stack : List Frame)
  | name (members : List (Option Text × Json)) (stack : List Frame)
  | colon (members : List (Option Text × Json)) (name : Option Text) (stack : List Frame)
  /-- The topmost frame holds a complete value: a comma or the end is next. -/
  | afterItem (items : List Json) (stack : List Frame)
  | afterMember (members : List (Option Text × Json)) (stack : List Frame)
  | done (value : Json)

/-- A value was completed. -/
def push (j : Json) : List Frame → State
  | [] => .done j
  | .array items :: stack => .afterItem (items ++ [j]) stack
  | .object members name :: stack => .afterMember (members ++ [(name, j)]) stack

/-- A value begins. -/
def begin? (stack : List Frame) : JsonToken → Option State
  | .openBracket => some (.firstItem stack)
  | .openBrace => some (.firstName stack)
  | .null => some (push .null stack)
  | .bool b => some (push (.bool b) stack)
  | .number n => some (push (.number n) stack)
  | .string s => some (push (.string s) stack)
  | .closeBrace | .closeBracket | .comma | .colon => none

def feed : State → JsonToken → Option State
  | .value stack, token => begin? stack token
  | .firstItem stack, .closeBracket => some (push (.array []) stack)
  | .firstItem stack, token => begin? (.array [] :: stack) token
  | .firstName stack, .closeBrace => some (push (.object []) stack)
  | .firstName stack, .string name => some (.colon [] name stack)
  | .name members stack, .string name => some (.colon members name stack)
  | .colon members name stack, .colon => some (.value (.object members name :: stack))
  | .afterItem items stack, .comma => some (.value (.array items :: stack))
  | .afterItem items stack, .closeBracket => some (push (.array items) stack)
  | .afterMember members stack, .comma => some (.name members stack)
  | .afterMember members stack, .closeBrace => some (push (.object members) stack)
  | _, _ => none

def run : State → List JsonToken → Option Json
  | .done j, [] => some j
  | _, [] => none
  | state, token :: rest =>
    match feed state token with
    | some state => run state rest
    | none => none

end JsonReader

/-- Reads a text that is one JSON value, with nothing but space around its tokens. -/
def Json.ofText? (t : Text) : Option Json := do
  JsonReader.run (.value []) (← JsonToken.ofText? t)

end LslScript
