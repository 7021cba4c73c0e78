import LslScript.Json.Record
import LslScript.Json.Reader
import LslScript.Param
import LslScript.Recipe.Basic

/-!
# Recipes from JSON

What a recipe may look like: records in either form, fields with defaults left out. An operation, or
a call on its own, is refused if anything in it spells no text, is no finite number or is nested too
deep, also where it is not used.
-/

namespace LslScript

open Json (record? tag? orElse required toText? toBool? toInt32? toList? toCase?)

/-! ## Names -/

def ValueType.ofJson? (j : Json) : Option ValueType := do ofName? (← toCase? Json.isNull j)

def Event.ofJson? (j : Json) : Option Event := do ofName? (← toCase? Json.isNullOrEmptyObject j)

def Param.ofJson? (j : Json) : Option Param := do
  match ← record? ["ty", "ident"] j with
  | [type, ident] => return ⟨← required ValueType.ofJson? type, ← required toText? ident⟩
  | _ => none

/-! ## Calls -/

namespace WrittenCall

def Kind.ofName? (j : Json) : Option Kind := do
  let text ← toText? j
  all.find? (·.name == text)

/-- In an operation, the kind of a call may also be given by its place among the kinds. -/
def Kind.ofNameOrIndex? : Json → Option Kind
  | .number n =>
    match n.negative, n.toInt? with
    | false, some i => Kind.all[i.toNat]?
    | _, _ => none
  | j => Kind.ofName? j

/-- Reads a call whose kind is read from its tag by `kind?`. -/
def ofRecord? (kind? : Json → Option Kind) (j : Json) : Option WrittenCall := do
  let kind ← kind? (← tag? "fn" j)
  match kind, ← record? ("fn" :: kind.fields) j with
  | .say, [_, channel, message] =>
    return .say (← required toInt32? channel) (← required toText? message)
  | .listen, [_, channel, name, id, message, embed] =>
    return .listen (← required toInt32? channel) (← orElse toText? [] name)
      (← orElse toText? [] id) (← orElse toText? [] message) (← orElse toBool? false embed)
  | .setColor, [_, color, face] =>
    return .setColor (← required toText? color) (← required toInt32? face)
  | .raw, [_, text] => return .raw (← required toText? text)
  | _, _ => none

end WrittenCall

/-! ## Operations -/

namespace Operation

def Kind.ofName? (j : Json) : Option Kind := do
  let text ← toText? j
  all.find? (·.name == text)

/-- The parameters of an event, where null stands for none given. -/
def params? : Json → Option (Option (List Text))
  | .null => some none
  | j => (toList? toText? j).map some

def ofRecord? (j : Json) : Option Operation := do
  let kind ← Kind.ofName? (← tag? "op" j)
  match kind, ← record? ("op" :: kind.fields) j with
  | .event, [_, state, e, params] =>
    return .event (← orElse toText? [] state) (← required Event.ofJson? e)
      (← orElse params? none params)
  | .eventLine, [_, state, e, line] =>
    return .eventLine (← orElse toText? [] state) (← required Event.ofJson? e)
      (← required toText? line)
  | .call, [_, state, e, spec] =>
    return .call (← orElse toText? [] state) (← required Event.ofJson? e)
      (← required (WrittenCall.ofRecord? WrittenCall.Kind.ofNameOrIndex?) spec)
  | .function, [_, name, params] =>
    return .function (← required toText? name) (← orElse (toList? (toList? toText?)) [] params)
  | .functionLine, [_, name, line] =>
    return .functionLine (← required toText? name) (← required toText? line)
  | .functionBlankLine, [_, name] => return .functionBlankLine (← required toText? name)
  | _, _ => none

end Operation

/-! ## Whole texts -/

/-- How deep the arrays and objects of a text may be nested, where this is limited. -/
def maxDepth : Nat := 127

/-- Whether a value may stand `outer` levels deep in a text. -/
def Json.isAcceptable (outer : Nat) (j : Json) : Bool := j.isSound && outer + j.depth ≤ maxDepth

def WrittenCall.ofJson? (j : Json) : Option WrittenCall :=
  if j.isAcceptable 0 then ofRecord? Kind.ofName? j else none

/-- Reads an operation that stands `outer` levels deep. -/
def Operation.ofJson? (outer : Nat) (j : Json) : Option Operation :=
  if j.isAcceptable outer then ofRecord? j else none

def Recipe.ofJson? (j : Json) : Option Recipe := do
  match ← record? ["schemaVersion", "operations"] j with
  | [schemaVersion, operations] =>
    return ⟨← required toText? schemaVersion,
      ← orElse (toList? (Operation.ofJson? 2)) [] operations⟩
  | _ => none

def WrittenCall.ofText? (t : Text) : Option WrittenCall := do ofJson? (← Json.ofText? t)

def Operation.ofText? (t : Text) : Option Operation := do ofJson? 0 (← Json.ofText? t)

def Recipe.ofText? (t : Text) : Option Recipe := do ofJson? (← Json.ofText? t)

def Param.ofText? (t : Text) : Option Param := do ofJson? (← Json.ofText? t)

end LslScript
