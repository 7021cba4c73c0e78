import LslScript.Json.Spelling
import LslScript.Json.Value

/-! # Printing JSON, without any space -/

namespace LslScript

def JsonNumber.text (n : JsonNumber) : Text :=
  let sign : Text := if n.negative then "-" else []
  let fraction := match n.fraction with
    | some digits => '.' :: digits
    | none => []
  let exponent := match n.exponent with
    | some (true, digits) => 'e' :: '-' :: digits
    | some (false, digits) => 'e' :: digits
    | none => []
  sign ++ n.whole ++ fraction ++ exponent

namespace Json

/-- A string that spells no text is written as one half of a surrogate pair. -/
def stringText : Option Text → Text
  | some t => Spelling.quoted t
  | none => "\"\\ud800\""

mutual

def text : Json → Text
  | null => "null"
  | bool true => "true"
  | bool false => "false"
  | number n => n.text
  | string s => stringText s
  | array items => "[" ++ textOfItems items ++ "]"
  | object members => "\x7b" ++ textOfMembers members ++ "\x7d"

def textOfItems : List Json → Text
  | [] => []
  | [j] => j.text
  | j :: rest => j.text ++ "," ++ textOfItems rest

def textOfMembers : List (Option Text × Json) → Text
  | [] => []
  | [(name, j)] => stringText name ++ ":" ++ j.text
  | (name, j) :: rest => stringText name ++ ":" ++ j.text ++ "," ++ textOfMembers rest

end

def ofText (t : Text) : Json := string (some t)

def ofTexts (ts : List Text) : Json := array (ts.map ofText)

def ofInt32 (n : Int32) : Json := number (.ofInt n.toInt)

def ofMembers (members : List (Text × Json)) : Json :=
  object (members.map fun (name, j) => (some name, j))

end Json

end LslScript
