import LslScript.Event.Signature
import LslScript.Param

/-! # Parameters of events -/

namespace LslScript.Event

def canonicalParams (e : Event) : List Param :=
  e.signature.map fun (type, ident) => ⟨type, ident⟩

def bind (e : Event) (idents : List Text) : Except Fault (List Param) :=
  if idents.length = e.arity then
    (e.types.zip idents).mapM fun (type, ident) => (Param.named type ident.trim).mapError .param
  else .error (.eventArity e idents.length)

def display (e : Event) : Text := Param.header e.name e.canonicalParams

end LslScript.Event
