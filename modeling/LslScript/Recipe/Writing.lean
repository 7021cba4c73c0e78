import LslScript.Json.Printer
import LslScript.Param
import LslScript.Recipe.Basic

/-!
# Recipes as JSON

Each kind of operation and of call is an object whose first member names the kind; the fields follow
in order and none is left out.
-/

namespace LslScript

open Json (ofText ofTexts ofInt32 ofMembers)

def WrittenCall.toJson : WrittenCall → Json
  | say channel message =>
    ofMembers [("fn", ofText "llSay"), ("channel", ofInt32 channel), ("message", ofText message)]
  | listen channel name id message embed =>
    ofMembers [("fn", ofText "llListen"), ("channel", ofInt32 channel), ("name", ofText name),
      ("id", ofText id), ("message", ofText message), ("embed", .bool embed)]
  | setColor color face =>
    ofMembers [("fn", ofText "llSetColor"), ("color", ofText color), ("face", ofInt32 face)]
  | raw text => ofMembers [("fn", ofText "raw"), ("text", ofText text)]

namespace Operation

def members : Operation → List (Text × Json)
  | event state e params =>
    [("state", ofText state), ("event", ofText e.name),
      ("params", (params.map ofTexts).getD .null)]
  | eventLine state e line =>
    [("state", ofText state), ("event", ofText e.name), ("line", ofText line)]
  | call state e spec =>
    [("state", ofText state), ("event", ofText e.name), ("call", spec.toJson)]
  | function name params => [("name", ofText name), ("params", .array (params.map ofTexts))]
  | functionLine name line => [("name", ofText name), ("line", ofText line)]
  | functionBlankLine name => [("name", ofText name)]

def toJson (op : Operation) : Json := ofMembers (("op", ofText op.name) :: op.members)

end Operation

def Recipe.toJson (r : Recipe) : Json :=
  ofMembers [("schemaVersion", ofText r.schemaVersion),
    ("operations", .array (r.operations.map Operation.toJson))]

def Param.toJson (p : Param) : Json :=
  ofMembers [("ty", ofText p.type.name), ("ident", ofText p.ident)]

def Event.toJson (e : Event) : Json :=
  ofMembers [("kind", ofText e.name), ("name", ofText e.name),
    ("params", .array (e.signature.map fun (type, ident) =>
      ofMembers [("ty", ofText type.name), ("name", ofText ident)]))]

end LslScript
