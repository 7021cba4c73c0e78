import LslScript.Fault
import LslScript.Identifier

/-! # Typed parameters -/

namespace LslScript

structure Param where
  type : ValueType
  ident : Text
deriving DecidableEq

namespace Param

def named (type : ValueType) (ident : Text) : Except ParamFault Param :=
  if isIdentifier ident then .ok ⟨type, ident⟩ else .error (.badIdent ident)

/-- Reads a type and an identifier set apart by blanks. -/
def ofPair (pair : Text) : Except ParamFault Param :=
  match pair.words with
  | [] => .error .emptyPair
  | first :: others =>
    match ValueType.ofName? first, others with
    | none, _ => .error (.unknownType first)
    | some type, [ident] => named type ident
    | some _, _ => .error (.notAPair pair)

def text (p : Param) : Text := p.type.name ++ " " ++ p.ident

def listing (ps : List Param) : Text := Text.listing (ps.map text)

def header (name : Text) (ps : List Param) : Text := name ++ "(" ++ listing ps ++ ")"

/-- Reads the text between the parentheses of a header. -/
def ofListing (t : Text) : Except ParamFault (List Param) :=
  if t.isBlank then .ok [] else (t.splitOn ',').mapM ofPair

end Param

end LslScript
