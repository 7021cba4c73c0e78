import LslScript.Text.Replace

/-!
# Placeholders

Generated content holds no brace and no double quote, because these delimit what is generated. A
token stands for each of them until the finished script is expanded.
-/

namespace LslScript

inductive Delimiter
  | openBrace | closeBrace | doubleQuote
deriving DecidableEq

namespace Delimiter

def all : List Delimiter := [openBrace, closeBrace, doubleQuote]

def char : Delimiter → Char
  | openBrace => '{'
  | closeBrace => '}'
  | doubleQuote => '"'

def token : Delimiter → Text
  | openBrace => "__obrace__"
  | closeBrace => "__cbrace__"
  | doubleQuote => "__dquote__"

def ofChar? (c : Char) : Option Delimiter := all.find? (·.char == c)

end Delimiter

namespace Placeholder

/-- Puts the delimiters back, one kind after the other: where tokens overlap, the one of the earlier
kind counts. -/
def expand (t : Text) : Text :=
  Delimiter.all.foldl (fun t d => Text.replace d.token [d.char] t) t

def encode (t : Text) : Text :=
  t.flatMap fun c =>
    match Delimiter.ofChar? c with
    | some d => d.token
    | none => [c]

def firstDelimiter? (t : Text) : Option Delimiter := t.findSome? Delimiter.ofChar?

end Placeholder

end LslScript
