import LslScript.Text.Basic

/-!
# Command lines

A command is named first; its options follow in any order, each at most once. The value of an option
stands behind an equals sign or is the next argument.
-/

namespace LslScript

inductive Command
  | build (recipe : Text) (out : Option Text) (keepPlaceholders : Bool)
  | batch (recipesDir outDir : Text)
  | events (json : Bool)
deriving DecidableEq

namespace Command

structure Given where
  name : Text
  value : Option Text
deriving DecidableEq

structure Options where
  valued : List Text
  flags : List Text

/-- The name of an option and the value behind an equals sign, if there is one. -/
def splitOption (t : Text) : Text × Option Text :=
  match t.dropWhile (· != '=') with
  | [] => (t, none)
  | _ :: value => (t.takeWhile (· != '='), some value)

/-- An argument of its own is a value unless it looks like an option. -/
def isValue : Text → Bool
  | '-' :: _ :: _ => false
  | _ => true

def given? (options : Options) : List Text → Option (List Given)
  | [] => some []
  | argument :: rest =>
    match Text.after? "--" argument with
    | none => none
    | some body =>
      match splitOption body with
      | ([], none) => if rest.isEmpty then some [] else none
      | (name, some value) =>
        if options.valued.contains name then
          (given? options rest).map (⟨name, some value⟩ :: ·)
        else none
      | (name, none) =>
        if options.flags.contains name then (given? options rest).map (⟨name, none⟩ :: ·)
        else if options.valued.contains name then
          match rest with
          | value :: rest =>
            if isValue value then (given? options rest).map (⟨name, some value⟩ :: ·) else none
          | [] => none
        else none

/-- The options of a command line, if none is given twice. -/
def options? (options : Options) (arguments : List Text) : Option (List Given) := do
  let given ← given? options arguments
  if (given.map (·.name)).Nodup then return given else none

def value? (given : List Given) (name : Text) : Option Text :=
  given.findSome? fun g => if g.name = name then g.value else none

def isGiven (given : List Given) (name : Text) : Bool := given.any (·.name == name)

def ofArguments? : List Text → Option Command
  | [] => none
  | name :: arguments =>
    if name = "build".toList then do
      let given ← options? ⟨["recipe", "out"], ["keep-placeholders"]⟩ arguments
      return .build (← value? given "recipe") (value? given "out")
        (isGiven given "keep-placeholders")
    else if name = "batch".toList then do
      let given ← options? ⟨["recipes-dir", "out-dir"], []⟩ arguments
      return .batch (← value? given "recipes-dir") (← value? given "out-dir")
    else if name = "events".toList then do
      let given ← options? ⟨[], ["json"]⟩ arguments
      return .events (isGiven given "json")
    else none

end Command

end LslScript
