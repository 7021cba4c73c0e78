import LslScript.Call
import LslScript.Draft.Basic

/-!
# Edits

What can be done to a draft. An edit that is refused gives a fault and no draft, so that the
draft it was tried on stays as it is.
-/

namespace LslScript

/-- The lines that content becomes in a body, its first one indented: none if it is blank. -/
def bodyLines (depth : Nat) (content : Text) : Except Fault (List Text) :=
  if content.isBlank then .ok []
  else
    match Placeholder.firstDelimiter? content with
    | some delimiter => .error (.rawDelimiter delimiter content)
    | none => .ok (Text.lines (indent depth ++ content))

namespace Draft

/-! ## States and events -/

def declareState (d : Draft) (raw : Text) : Except Fault (StateName × Draft) := do
  let name ← StateName.ofText raw
  return (name, { d with registry := d.registry.declare name })

/-- Appends a handler to a state, whose block is written first if it has none; the flag tells
whether it was. -/
def appendHandler (d : Draft) (name : StateName) (event : Event) (params : List Param) :
    Except Fault (Bool × Draft) :=
  let block : Handler := ⟨event, params, [], .sentinel⟩
  let known := d.script.state? name
  if known.any fun b => b.handlers.any (·.event == event) then
    .error (.eventTwice event name.label)
  else if d.script.states.isEmpty || !d.registry.isWritten name then
    .ok (true, ⟨d.registry.markWritten name, d.script.addState ⟨name, [block], .sentinel⟩⟩)
  else if known.isSome then .ok (false, { d with script := d.script.addHandler name block })
  else .error (.noStateEnd name.label)

/-- Adds an event with the given identifiers for its parameters, or those of the catalogue. It is
logged if the state was not named and its block had to be written. -/
def registerEvent (d : Draft) (raw : Text) (event : Event) (idents : Option (List Text)) :
    Except Fault (List LogRecord × Draft) := do
  let name ← StateName.ofText raw
  let params ← match idents with
    | some idents => event.bind idents
    | none => .ok event.canonicalParams
  let (written, d) ← d.appendHandler name event params
  return (if written && raw.isBlank then [.stateNotNamed] else [], d)

def addEventLine (d : Draft) (raw : Text) (event : Event) (content : Text) :
    Except Fault Draft := do
  match ← bodyLines 2 content with
  | [] => return d
  | lines =>
    let name ← StateName.ofText raw
    match d.script.state? name with
    | none => .error (.noState name.label)
    | some state =>
      match state.handler? event with
      | none => .error (.noEvent event name.label)
      | some block =>
        if block.ending = .sentinel then
          return { d with script := d.script.addEventLines name event lines }
        else .error (.noEventEnd event name.label)

def addCall (d : Draft) (raw : Text) (event : Event) (call : Call) : Except Fault Draft :=
  d.addEventLine raw event call.render

/-! ## Functions -/

/-- Writes a function in front of all that is there. -/
def defineFunction (d : Draft) (raw : Text) (params : List Param) :
    Except Fault (Text × Draft) :=
  let name := raw.trim
  if !isIdentifier name then .error (.badFunction name)
  else if (d.script.function? name).isSome then .error (.functionTwice name)
  else .ok (name, { d with script := d.script.addFunction ⟨name, params, [], .sentinel⟩ })

def defineFunctionOfPairs (d : Draft) (raw : Text) (groups : List (List Text)) :
    Except Fault (Text × Draft) := do
  let params ← (groups.flatten.mapM Param.ofPair).mapError .param
  d.defineFunction raw params

/-- Appends lines to a function that is closed by its sentinel. -/
def appendToFunction (d : Draft) (name : Text) (lines : List Text) : Except Fault Draft :=
  match d.script.function? name with
  | none => .error (.noFunction name)
  | some block =>
    if block.ending = .sentinel then
      .ok { d with script := d.script.addFunctionLines name lines }
    else .error (.noFunctionEnd name)

def addFunctionLine (d : Draft) (name content : Text) : Except Fault Draft := do
  match ← bodyLines 1 content with
  | [] => return d
  | lines => d.appendToFunction name lines

def addBlankLine (d : Draft) (name : Text) : Except Fault Draft := d.appendToFunction name [[]]

/-! ## Documents -/

/-- The draft whose document is read from a text, in place of any other. -/
def ofDocument (t : Text) : Except Fault Draft := do
  let script ← Script.ofText t
  return ⟨.ofScript script, script⟩

end Draft

end LslScript
