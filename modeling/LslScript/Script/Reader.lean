import LslScript.Script.Header

/-!
# Reading a script

A script is read line by line: the blocks that are complete and the place in the block that is open
decide what the next line may be. The first line that cannot stand at its place is reported; a text
that ends too early is reported for the line behind its last.
-/

namespace LslScript

/-- Where in a script the next line stands, with what is known of the open blocks. -/
inductive Place
  | outside
  | functionOpening (name : Text) (params : List Param)
  | functionBody (name : Text) (params : List Param) (body : List Text)
  | stateOpening (name : StateName)
  | stateBody (name : StateName) (handlers : List Handler)
  | eventOpening (name : StateName) (handlers : List Handler) (event : Event)
    (params : List Param)
  | eventBody (name : StateName) (handlers : List Handler) (event : Event)
    (params : List Param) (body : List Text)
deriving DecidableEq

structure Reading where
  script : Script
  place : Place
deriving DecidableEq

namespace Reading

def start : Reading := ⟨.empty, .outside⟩

/-- A line outside all blocks is blank or heads a state or a function. -/
def heading (r : Reading) (line : Text) : Except Defect Place :=
  if line.isBlank then .ok .outside
  else
    match StateName.ofLabel? line with
    | some name =>
      if (r.script.state? name).isSome then .error (.stateTwice name.label)
      else .ok (.stateOpening name)
    | none =>
      match Header.function? line with
      | none => .error .noHeader
      | some (name, inner) =>
        if !r.script.states.isEmpty then .error .functionAfterState
        else if (r.script.function? name).isSome then .error (.functionTwice name)
        else
          match Param.ofListing inner with
          | .error cause => .error (.params cause)
          | .ok params => .ok (.functionOpening name params)

/-- A line that heads an event of a state with the given handlers. -/
def eventHeading (name : StateName) (handlers : List Handler) (line : Text) :
    Except Defect Place :=
  match Header.event? line with
  | none => .error (.noEvent name.label)
  | some (word, inner) =>
    match Event.ofName? word with
    | none => .error (.unknownEvent word)
    | some event =>
      if handlers.any (·.event == event) then .error (.eventTwice event name.label)
      else
        match Param.ofListing inner with
        | .error cause => .error (.params cause)
        | .ok params =>
          if params.map (·.type) = event.types then .ok (.eventOpening name handlers event params)
          else .error (.wrongParams event)

def next (r : Reading) (line : Text) : Except Defect Reading :=
  match r.place with
  | .outside =>
    match r.heading line with
    | .ok place => .ok { r with place }
    | .error defect => .error defect
  | .functionOpening name params =>
    if line = opening then .ok { r with place := .functionBody name params [] }
    else .error (.missing opening)
  | .functionBody name params body =>
    if Text.startsWith "\x7d" line then
      let block := ⟨name, params, body, .ofLine (Sentinel.function name) line⟩
      .ok ⟨{ r.script with functions := r.script.functions ++ [block] }, .outside⟩
    else .ok { r with place := .functionBody name params (body ++ [line]) }
  | .stateOpening name =>
    if line = opening then .ok { r with place := .stateBody name [] }
    else .error (.missing opening)
  | .stateBody name handlers =>
    if line.isBlank then .ok r
    else if Text.startsWith "\x7d" line then
      .ok ⟨r.script.addState ⟨name, handlers, .ofLine (Sentinel.state name) line⟩, .outside⟩
    else
      match eventHeading name handlers line with
      | .ok place => .ok { r with place }
      | .error defect => .error defect
  | .eventOpening name handlers event params =>
    if line = indentUnit ++ opening then
      .ok { r with place := .eventBody name handlers event params [] }
    else .error (.missing (indentUnit ++ opening))
  | .eventBody name handlers event params body =>
    if Text.startsWith (indentUnit ++ "\x7d") line then
      let block := ⟨event, params, body, .ofLine (Sentinel.event event) line⟩
      .ok { r with place := .stateBody name (handlers ++ [block]) }
    else if Text.startsWith "\x7d" line then .error (.openBlock event.name)
    else .ok { r with place := .eventBody name handlers event params (body ++ [line]) }

def finish (r : Reading) : Except Defect Script :=
  match r.place with
  | .outside => .ok r.script
  | .functionOpening _ _ | .stateOpening _ => .error (.missing opening)
  | .functionBody name _ _ => .error (.openBlock name)
  | .stateBody name _ => .error (.openState name.label)
  | .eventOpening _ _ _ _ => .error (.missing (indentUnit ++ opening))
  | .eventBody _ _ event _ _ => .error (.openBlock event.name)

def readFrom (r : Reading) : (number : Nat) → List Text → Except Fault Script
  | number, [] => r.finish.mapError (.layout number)
  | number, line :: rest =>
    match r.next line with
    | .ok r => readFrom r (number + 1) rest
    | .error defect => .error (.layout number defect)

end Reading

def Script.ofText (t : Text) : Except Fault Script := Reading.start.readFrom 1 (Text.lines t)

end LslScript
