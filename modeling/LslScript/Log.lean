import LslScript.StateName

/-! # Log records -/

namespace LslScript

inductive LogLevel
  | error | warn | info | debug
deriving DecidableEq

def LogLevel.name : LogLevel → Text
  | error => "ERROR"
  | warn => "WARN"
  | info => "INFO"
  | debug => "DEBUG"

/-- What happens while a script is made that is worth telling: the state of an event was not named
and its block had to be written, an operation of a recipe was applied, a script was written, a
command failed. -/
inductive LogRecord
  | stateNotNamed
  | applied (index : Nat) (operation : Text)
  | wrote (path : Text)
  | failed (message : Text)
deriving DecidableEq

namespace LogRecord

def level : LogRecord → LogLevel
  | stateNotNamed => .warn
  | applied _ _ => .debug
  | wrote _ => .info
  | failed _ => .error

def message : LogRecord → Text
  | stateNotNamed => "State name not provided. Defaulting to '" ++ StateName.default.text ++ "'."
  | applied index operation =>
    "applied recipe operation " ++ Text.ofNat index ++ " (" ++ operation ++ ")"
  | wrote path => "wrote script " ++ path
  | failed message => message

def text (r : LogRecord) : Text := r.level.name ++ " " ++ r.message

end LogRecord

end LslScript
