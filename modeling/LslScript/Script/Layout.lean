import LslScript.Script.Basic
import LslScript.Text.Lines

/-!
# Layout

A script as lines of text: functions first, then states. A block is its header, an opening brace,
its body and its closing line, with an empty line behind it; what is in a state is indented.
-/

namespace LslScript

def indentUnit : Text := "    "

def indent (depth : Nat) : Text := (List.replicate depth indentUnit).flatten

def opening : Text := "\x7b"

namespace Sentinel

def function (name : Text) : Text := "\x7d  // End of '" ++ name ++ "' function"

def event (e : Event) : Text := indentUnit ++ "\x7d  // End of '" ++ e.name ++ "' event"

def state (name : StateName) : Text := "\x7d  // End of '" ++ name.label ++ "' state"

end Sentinel

namespace Ending

def line (sentinel : Text) : Ending → Text
  | .sentinel => sentinel
  | .verbatim line => line

/-- Which of the two a closing line is. -/
def ofLine (sentinel line : Text) : Ending := if line = sentinel then .sentinel else .verbatim line

end Ending

namespace FunctionDef

def header (b : FunctionDef) : Text := Param.header b.name b.params

def lines (b : FunctionDef) : List Text :=
  [b.header, opening] ++ b.body ++ [b.ending.line (Sentinel.function b.name), []]

end FunctionDef

namespace Handler

def header (b : Handler) : Text := indentUnit ++ Param.header b.event.name b.params

def lines (b : Handler) : List Text :=
  [b.header, indentUnit ++ opening] ++ b.body ++ [b.ending.line (Sentinel.event b.event), []]

end Handler

def StateDef.lines (b : StateDef) : List Text :=
  [b.name.label, opening] ++ b.handlers.flatMap Handler.lines ++
    [b.ending.line (Sentinel.state b.name), []]

namespace Script

def lines (s : Script) : List Text :=
  s.functions.flatMap FunctionDef.lines ++ s.states.flatMap StateDef.lines

def text (s : Script) : Text := Text.unlines s.lines

end Script

end LslScript
