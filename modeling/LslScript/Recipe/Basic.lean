import LslScript.Event.Basic

/-!
# Recipes

A recipe is a list of operations by which a script is made. Lines and texts in it are plain script
text, with braces and quotes.
-/

namespace LslScript

/-- A call of a library function, its literals as they are written. -/
inductive WrittenCall
  | say (channel : Int32) (message : Text)
  | listen (channel : Int32) (name id message : Text) (embed : Bool)
  | setColor (color : Text) (face : Int32)
  | raw (text : Text)
deriving DecidableEq

namespace WrittenCall

inductive Kind
  | say | listen | setColor | raw
deriving DecidableEq

namespace Kind

def all : List Kind := [say, listen, setColor, raw]

def name : Kind → Text
  | say => "llSay"
  | listen => "llListen"
  | setColor => "llSetColor"
  | raw => "raw"

def fields : Kind → List Text
  | say => ["channel", "message"]
  | listen => ["channel", "name", "id", "message", "embed"]
  | setColor => ["color", "face"]
  | raw => ["text"]

end Kind

end WrittenCall

inductive Operation
  /-- The parameters have the names of the catalogue where none are given. -/
  | event (state : Text) (event : Event) (params : Option (List Text))
  | eventLine (state : Text) (event : Event) (line : Text)
  | call (state : Text) (event : Event) (call : WrittenCall)
  | function (name : Text) (params : List (List Text))
  | functionLine (name line : Text)
  | functionBlankLine (name : Text)
deriving DecidableEq

structure Recipe where
  schemaVersion : Text
  operations : List Operation
deriving DecidableEq

namespace Operation

inductive Kind
  | event | eventLine | call | function | functionLine | functionBlankLine
deriving DecidableEq

namespace Kind

def all : List Kind := [event, eventLine, call, function, functionLine, functionBlankLine]

def name : Kind → Text
  | event => "event"
  | eventLine => "eventLine"
  | call => "call"
  | function => "function"
  | functionLine => "functionLine"
  | functionBlankLine => "functionBlankLine"

def fields : Kind → List Text
  | event => ["state", "event", "params"]
  | eventLine => ["state", "event", "line"]
  | call => ["state", "event", "call"]
  | function => ["name", "params"]
  | functionLine => ["name", "line"]
  | functionBlankLine => ["name"]

end Kind

def kind : Operation → Kind
  | event _ _ _ => .event
  | eventLine _ _ _ => .eventLine
  | call _ _ _ => .call
  | function _ _ => .function
  | functionLine _ _ => .functionLine
  | functionBlankLine _ => .functionBlankLine

def name (op : Operation) : Text := op.kind.name

end Operation

def Recipe.schema : Text := "lslgen-recipe.v1"

end LslScript
