import LslScript.Json.Spelling
import LslScript.Json.Value

/-! # Tokens of JSON -/

namespace LslScript

inductive JsonToken
  | openBrace | closeBrace | openBracket | closeBracket | comma | colon
  | null
  | bool (value : Bool)
  | number (value : JsonNumber)
  | string (text : Option Text)
deriving DecidableEq

namespace JsonNumber

/-- The digits in front of a text, if there are any, and what follows them. -/
def digits? (t : Text) : Option (Text × Text) :=
  let digits := t.takeWhile Char.isDigit
  if digits.isEmpty then none else some (digits, t.dropWhile Char.isDigit)

/-- The digits before the point: a single zero, or digits that do not start with one. -/
def whole? (t : Text) : Option (Text × Text) :=
  match digits? t with
  | some ('0' :: _ :: _, _) => none
  | result => result

def fraction? : Text → Option (Option Text × Text)
  | '.' :: rest => (digits? rest).map fun (digits, rest) => (some digits, rest)
  | t => some (none, t)

def signedDigits? : Text → Option ((Bool × Text) × Text)
  | '-' :: rest => (digits? rest).map fun (digits, rest) => ((true, digits), rest)
  | '+' :: rest => (digits? rest).map fun (digits, rest) => ((false, digits), rest)
  | t => (digits? t).map fun (digits, rest) => ((false, digits), rest)

def exponent? : Text → Option (Option (Bool × Text) × Text)
  | 'e' :: rest | 'E' :: rest =>
    (signedDigits? rest).map fun (exponent, rest) => (some exponent, rest)
  | t => some (none, t)

/-- The number in front of a text, and what follows it. -/
def read? (t : Text) : Option (JsonNumber × Text) := do
  let (negative, t) := match t with
    | '-' :: rest => (true, rest)
    | _ => (false, t)
  let (whole, t) ← whole? t
  let (fraction, t) ← fraction? t
  let (exponent, t) ← exponent? t
  return (⟨negative, whole, fraction, exponent⟩, t)

end JsonNumber

namespace JsonToken

def isSpace (c : Char) : Bool := c == ' ' || c == '\n' || c == '\t' || c == '\r'

/-- The token in front of a text, and what follows it. -/
def first? : Text → Option (JsonToken × Text)
  | '\x7b' :: rest => some (openBrace, rest)
  | '\x7d' :: rest => some (closeBrace, rest)
  | '[' :: rest => some (openBracket, rest)
  | ']' :: rest => some (closeBracket, rest)
  | ',' :: rest => some (comma, rest)
  | ':' :: rest => some (colon, rest)
  | 'n' :: 'u' :: 'l' :: 'l' :: rest => some (null, rest)
  | 't' :: 'r' :: 'u' :: 'e' :: rest => some (bool true, rest)
  | 'f' :: 'a' :: 'l' :: 's' :: 'e' :: rest => some (bool false, rest)
  | '"' :: rest =>
    (Spelling.pieces? rest).map fun (pieces, rest) => (string (Spelling.spell? pieces), rest)
  | t => (JsonNumber.read? t).map fun (n, rest) => (number n, rest)

/-- The tokens of a text with at most `fuel` characters. -/
def scan : (fuel : Nat) → Text → Option (List JsonToken)
  | _, [] => some []
  | 0, _ :: _ => none
  | fuel + 1, c :: rest =>
    if isSpace c then scan fuel rest
    else
      match first? (c :: rest) with
      | some (token, rest) => (scan fuel rest).map (token :: ·)
      | none => none

def ofText? (t : Text) : Option (List JsonToken) := scan t.length t

end JsonToken

end LslScript
