import LslScript.Text.Basic

/-! # The variable types of the scripting language -/

namespace LslScript

inductive ValueType
  | string | key | integer | float | vector | rotation | list
deriving DecidableEq

namespace ValueType

def all : List ValueType := [string, key, integer, float, vector, rotation, list]

def name : ValueType → Text
  | string => "string"
  | key => "key"
  | integer => "integer"
  | float => "float"
  | vector => "vector"
  | rotation => "rotation"
  | list => "list"

def ofName? (n : Text) : Option ValueType := all.find? (·.name == n)

end ValueType

end LslScript
