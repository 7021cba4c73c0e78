import LslScript.Event.Params
import LslScript.StateName

/-!
# Scripts

A script is a list of functions and a list of states, and a state is a list of event handlers. Each
of them is a block with a closing line; the lines in a body are kept as they are.
-/

namespace LslScript

/-- The last line of a block: the sentinel that names the block, or another line kept as it is. -/
inductive Ending
  | sentinel
  | verbatim (line : Text)
deriving DecidableEq

structure FunctionDef where
  name : Text
  params : List Param
  body : List Text
  ending : Ending
deriving DecidableEq

structure Handler where
  event : Event
  params : List Param
  body : List Text
  ending : Ending
deriving DecidableEq

structure StateDef where
  name : StateName
  handlers : List Handler
  ending : Ending
deriving DecidableEq

structure Script where
  functions : List FunctionDef
  states : List StateDef
deriving DecidableEq

def modifyFirst (p : α → Bool) (f : α → α) : List α → List α
  | [] => []
  | a :: rest => if p a then f a :: rest else a :: modifyFirst p f rest

def StateDef.handler? (b : StateDef) (e : Event) : Option Handler :=
  b.handlers.find? (·.event == e)

namespace Script

def empty : Script := ⟨[], []⟩

def isEmpty (s : Script) : Bool := s.functions.isEmpty && s.states.isEmpty

def function? (s : Script) (name : Text) : Option FunctionDef :=
  s.functions.find? (·.name == name)

def state? (s : Script) (name : StateName) : Option StateDef := s.states.find? (·.name == name)

/-- Puts a function in front of all others. -/
def addFunction (s : Script) (b : FunctionDef) : Script :=
  { s with functions := b :: s.functions }

def addState (s : Script) (b : StateDef) : Script := { s with states := s.states ++ [b] }

def addHandler (s : Script) (name : StateName) (b : Handler) : Script :=
  let add := fun state : StateDef => { state with handlers := state.handlers ++ [b] }
  { s with states := modifyFirst (·.name == name) add s.states }

def addEventLines (s : Script) (name : StateName) (e : Event) (lines : List Text) : Script :=
  let add := fun b : Handler => { b with body := b.body ++ lines }
  let change := fun state : StateDef =>
    { state with handlers := modifyFirst (·.event == e) add state.handlers }
  { s with states := modifyFirst (·.name == name) change s.states }

def addFunctionLines (s : Script) (name : Text) (lines : List Text) : Script :=
  let add := fun b : FunctionDef => { b with body := b.body ++ lines }
  { s with functions := modifyFirst (·.name == name) add s.functions }

end Script

end LslScript
