import LslScript.Log
import LslScript.Script.Reader

/-!
# Drafts

A draft is a script in the making, with a registry of the states that were named in it. A state
can be declared before it has a block; its block is written with its first event.
-/

namespace LslScript

/-- The states that were named, the latest entry first, and whether their block was written. -/
abbrev Registry := List (StateName × Bool)

namespace Registry

def isWritten (r : Registry) (name : StateName) : Bool := (r.lookup name).getD false

def declare (r : Registry) (name : StateName) : Registry :=
  if (r.lookup name).isSome then r else (name, false) :: r

def markWritten (r : Registry) (name : StateName) : Registry := (name, true) :: r

/-- The registry in which exactly the states of a script are named. -/
def ofScript (s : Script) : Registry := s.states.foldl (fun r b => r.markWritten b.name) []

end Registry

structure Draft where
  registry : Registry
  script : Script
deriving DecidableEq

namespace Draft

def empty : Draft := ⟨[], .empty⟩

/-! ## Questions -/

def document (d : Draft) : Text := d.script.text

def expanded (d : Draft) : Text := Placeholder.expand d.document

def isEmpty (d : Draft) : Bool := d.script.isEmpty

def stateNames (d : Draft) : List StateName := d.script.states.map (·.name)

def functionNames (d : Draft) : List Text := d.script.functions.map (·.name)

def isWritten (d : Draft) (raw : Text) : Bool :=
  match StateName.ofText raw with
  | .ok name => d.registry.isWritten name
  | .error _ => false

def eventsOf? (d : Draft) (raw : Text) : Option (List Event) :=
  match StateName.ofText raw with
  | .ok name => (d.script.state? name).map fun b => b.handlers.map (·.event)
  | .error _ => none

end Draft

end LslScript
