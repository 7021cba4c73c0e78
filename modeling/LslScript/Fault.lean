import LslScript.Event.Signature
import LslScript.Placeholder
import LslScript.Text.Blank

/-!
# Faults

The causes for which a name, a literal or an edit of a script is refused. `Fault.report` says each
of them in words, under a code that callers can rely on.
-/

namespace LslScript

/-! ## Reports -/

/-- What a lookup in a script did not find. -/
inductive Anchor
  | state | event | sentinel | function
deriving DecidableEq

def Anchor.name : Anchor → Text
  | state => "state"
  | event => "event"
  | sentinel => "sentinel"
  | function => "function"

def Anchor.code : Anchor → Text
  | state => "NOT_FOUND_STATE"
  | event => "NOT_FOUND_EVENT"
  | sentinel => "NOT_FOUND_SENTINEL"
  | function => "NOT_FOUND_FUNCTION"

inductive Report.Kind
  | validation | notFound (anchor : Anchor) | structural
deriving DecidableEq

structure Report where
  kind : Report.Kind
  code : Text
  message : Text
deriving DecidableEq

namespace Report

def validation (code message : Text) : Report := ⟨.validation, code, message⟩

def structural (code message : Text) : Report := ⟨.structural, code, message⟩

def notFound (anchor : Anchor) (message : Text) : Report :=
  ⟨.notFound anchor, anchor.code, message⟩

def text (r : Report) : Text := r.code ++ ": " ++ r.message

end Report

/-! ## Parameters -/

inductive ParamFault
  | badIdent (ident : Text)
  | emptyPair
  | unknownType (name : Text)
  | notAPair (pair : Text)
deriving DecidableEq

namespace ParamFault

def code : ParamFault → Text
  | badIdent _ => "VALIDATION_PARAM_IDENT"
  | emptyPair | notAPair _ => "VALIDATION_PARAM_PAIR"
  | unknownType _ => "VALIDATION_PARAM_TYPE"

def message : ParamFault → Text
  | badIdent ident => "Parameter identifier \"" ++ ident ++ "\" is not a valid identifier."
  | emptyPair => "An argument needs a valid LSL type and a name, got an empty string."
  | unknownType name =>
    "Unknown type \"" ++ name ++ "\". LSL accepts seven types of variable data: string, key, " ++
      "integer, float, vector, rotation, or list."
  | notAPair pair => "An argument needs a valid LSL type and a name, got \"" ++ pair ++ "\"."

end ParamFault

/-! ## Layout -/

/-- What makes a line impossible at its place in a script. -/
inductive Defect
  | noHeader
  | functionAfterState
  | functionTwice (name : Text)
  | stateTwice (label : Text)
  | params (cause : ParamFault)
  | missing (line : Text)
  | noEvent (label : Text)
  | unknownEvent (name : Text)
  | eventTwice (event : Event) (label : Text)
  | wrongParams (event : Event)
  | openState (label : Text)
  | openBlock (owner : Text)
deriving DecidableEq

def Defect.message : Defect → Text
  | noHeader => "expected a function or state header"
  | functionAfterState => "functions must precede every state"
  | functionTwice name => "function '" ++ name ++ "' appears twice"
  | stateTwice label => "state '" ++ label ++ "' appears twice"
  | params cause => cause.message
  | missing line => "expected \"" ++ line ++ "\""
  | noEvent label => "expected an event in state '" ++ label ++ "'"
  | unknownEvent name => "unknown event '" ++ name ++ "'"
  | eventTwice event label =>
    "event '" ++ event.name ++ "' appears twice in state '" ++ label ++ "'"
  | wrongParams event => "parameters of '" ++ event.name ++ "' do not match its signature"
  | openState label => "state '" ++ label ++ "' is never closed"
  | openBlock owner => "block '" ++ owner ++ "' is never closed"

/-! ## All causes -/

inductive Bracketed
  | vector | rotation
deriving DecidableEq

namespace Bracketed

def size : Bracketed → Nat
  | vector => 3
  | rotation => 4

def code : Bracketed → Text
  | vector => "VALIDATION_VECTOR"
  | rotation => "VALIDATION_ROTATION"

end Bracketed

inductive Fault
  | param (cause : ParamFault)
  | spacedState (name : Text)
  | badState (name : Text)
  | badFunction (name : Text)
  | functionTwice (name : Text)
  | eventArity (event : Event) (given : Nat)
  | eventTwice (event : Event) (label : Text)
  | rawDelimiter (delimiter : Delimiter) (line : Text)
  | key (raw : Text)
  | notBracketed (literal : Bracketed) (raw : Text)
  | notFloat (literal : Bracketed) (part : Text)
  | noState (label : Text)
  | noEvent (event : Event) (label : Text)
  | noEventEnd (event : Event) (label : Text)
  | noFunction (name : Text)
  | noFunctionEnd (name : Text)
  | noStateEnd (label : Text)
  | layout (line : Nat) (defect : Defect)
deriving DecidableEq

def Fault.report : Fault → Report
  | param cause => .validation cause.code cause.message
  | spacedState name =>
    .validation "VALIDATION_STATE_NAME_WHITESPACE"
      ("State name \"" ++ name ++ "\" must not contain internal whitespace.")
  | badState name =>
    .validation "VALIDATION_STATE_NAME" ("State name \"" ++ name ++ "\" is not a valid identifier.")
  | badFunction name =>
    .validation "VALIDATION_FUNCTION_NAME"
      ("Function name \"" ++ name ++ "\" is not a valid identifier.")
  | functionTwice name =>
    .validation "VALIDATION_FUNCTION_DUPLICATE" ("Function '" ++ name ++ "' is already defined.")
  | eventArity event given =>
    .validation "VALIDATION_EVENT_ARITY" ("Event \"" ++ event.name ++ "\" takes " ++
      Text.ofNat event.arity ++ " parameter(s), got " ++ Text.ofNat given ++ ".")
  | eventTwice event label =>
    .validation "VALIDATION_EVENT_DUPLICATE"
      ("Event '" ++ event.name ++ "' is already registered in state '" ++ label ++ "'.")
  | rawDelimiter delimiter line =>
    .validation "VALIDATION_LINE_RAW_DELIMITER" ("Content contains a raw '" ++ [delimiter.char] ++
      "'; use the placeholder tokens instead: " ++ line.trimEnd)
  | key raw => .validation "VALIDATION_KEY" ("Key \"" ++ raw ++ "\" is not formatted as a UUID.")
  | notBracketed literal raw =>
    .validation literal.code ("\"" ++ raw ++ "\" is not a bracketed literal of " ++
      Text.ofNat literal.size ++ " floats (e.g. <0.1,0.2,0.3>).")
  | notFloat literal part => .validation literal.code ("\"" ++ part ++ "\" is not a float.")
  | noState label => .notFound .state ("Unable to find state: '" ++ label ++ "'")
  | noEvent event label =>
    .notFound .event ("Unable to find event: '" ++ event.name ++ "' in state: '" ++ label ++ "'")
  | noEventEnd event label =>
    .notFound .sentinel
      ("Unable to find end of event: '" ++ event.name ++ "' in state: '" ++ label ++ "'")
  | noFunction name => .notFound .function ("Unable to find function: '" ++ name ++ "'")
  | noFunctionEnd name =>
    .notFound .sentinel ("Unable to find end of function: '" ++ name ++ "'")
  | noStateEnd label =>
    .structural "STRUCTURAL_NO_ANCHOR"
      ("Could not find end of current state: '" ++ label ++ "'")
  | layout line defect =>
    .structural "STRUCTURAL_UNRECOGNIZED_LAYOUT"
      ("line " ++ Text.ofNat line ++ ": " ++ defect.message)

end LslScript
