import LslScript.Json.Value

/-!
# Records in JSON

A record is an object with members of known names, each given at most once among any others, or an
array with the same values in order, of which the last may be left out.
-/

namespace LslScript.Json

/-- The value of a member that is given at most once. -/
def member? (members : List (Option Text × Json)) (name : Text) : Option (Option Json) :=
  match members.filter (·.1 == some name) with
  | [] => some none
  | [(_, j)] => some (some j)
  | _ => none

/-- The values of a record's fields, where they are given. -/
def record? (names : List Text) : Json → Option (List (Option Json))
  | object members =>
    if members.all (·.1.isSome) then names.mapM (member? members) else none
  | array items =>
    if items.length ≤ names.length then
      some (items.map some ++ List.replicate (names.length - items.length) none)
    else none
  | _ => none

/-- The value of a record's first field, by which records of several kinds are told apart. -/
def tag? (name : Text) : Json → Option Json
  | object members => (member? members name).join
  | array (j :: _) => some j
  | _ => none

/-! ## Fields -/

def toText? : Json → Option Text
  | string text => text
  | _ => none

def toBool? : Json → Option Bool
  | bool b => some b
  | _ => none

def toInt32? : Json → Option Int32
  | number n =>
    match n.toInt? with
    | some i =>
      if Int32.minValue.toInt ≤ i ∧ i ≤ Int32.maxValue.toInt then some (.ofInt i) else none
    | none => none
  | _ => none

def toList? (read : Json → Option α) : Json → Option (List α)
  | array items => items.mapM read
  | _ => none

/-- A name of a case without content: a string, or an object whose only member has this name and an
empty value. -/
def toCase? (isEmpty : Json → Bool) : Json → Option Text
  | string text => text
  | object [(some name, j)] => if isEmpty j then some name else none
  | _ => none

def isNull : Json → Bool
  | null => true
  | _ => false

def isNullOrEmptyObject : Json → Bool
  | null | object [] => true
  | _ => false

def orElse (read : Json → Option α) (default : α) : Option Json → Option α
  | none => some default
  | some j => read j

def required (read : Json → Option α) : Option Json → Option α
  | none => none
  | some j => read j

end LslScript.Json
