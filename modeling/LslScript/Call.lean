import LslScript.Literal.Key
import LslScript.Literal.Vector

/-!
# Library calls

Calls of library functions, rendered as content for a body. What a string literal cannot hold is
escaped, and its quotes are placeholders.
-/

namespace LslScript

inductive Call
  | say (channel : Int32) (message : Text)
  | listen (channel : Int32) (name : Text) (id : Key) (message : Text) (embed : Bool)
  | setColor (color : Vector) (face : Int32)
  | raw (text : Text)
deriving DecidableEq

namespace Call

def escape (t : Text) : Text :=
  t.flatMap fun
    | '\\' => "\\\\"
    | '\n' => "\\n"
    | '"' => "\\\""
    | c => [c]

/-- A string literal between placeholders. -/
def quoted (t : Text) : Text :=
  Delimiter.doubleQuote.token ++ Placeholder.encode (escape t) ++ Delimiter.doubleQuote.token

/-- The statement on a line of its own; a call of `llListen` may be left without its end, to be part
of a longer expression. -/
def render : Call → Text
  | say channel message =>
    "llSay(" ++ Text.ofInt channel.toInt ++ ", " ++ quoted message ++ ");\n"
  | listen channel name id message embed =>
    let arguments := [Text.ofInt channel.toInt, quoted name, quoted id.text, quoted message]
    let ending : Text := if embed then ")" else ");\n"
    "llListen(" ++ Text.listing arguments ++ ending
  | setColor color face => "llSetColor(" ++ color.text ++ ", " ++ Text.ofInt face.toInt ++ ");\n"
  | raw text => text

end Call

end LslScript
