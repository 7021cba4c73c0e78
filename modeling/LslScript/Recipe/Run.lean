import LslScript.Failure
import LslScript.Recipe.Reading
import LslScript.Draft.Edit

/-!
# Running a recipe

The operations are applied in order to an empty draft, up to the first that is refused. Plain text
is encoded on its way, so that no delimiter of it reaches the draft.
-/

namespace LslScript

def WrittenCall.toCall : WrittenCall → Except Fault Call
  | say channel message => .ok (.say channel message)
  | listen channel name id message embed => do
    return .listen channel name (← Key.ofText id) message embed
  | setColor color face => do return .setColor (← Vector.ofText color) face
  | raw text => .ok (.raw (Placeholder.encode text))

namespace Operation

/-- The draft after an operation, with what was logged. -/
def apply (s : Draft) : Operation → Except Fault (List LogRecord × Draft)
  | event state e params => s.registerEvent state e params
  | eventLine state e line => do
    return ([], ← s.addEventLine state e (Placeholder.encode line))
  | call state e spec => do return ([], ← s.addCall state e (← spec.toCall))
  | function name params => do
    let (_, s) ← s.defineFunctionOfPairs name params
    return ([], s)
  | functionLine name line => do return ([], ← s.addFunctionLine name (Placeholder.encode line))
  | functionBlankLine name => do return ([], ← s.addBlankLine name)

/-- The draft after operations of which the first has the given index; the records of those that
were applied come with the result. -/
def applyFrom (index : Nat) (s : Draft) :
    List Operation → List LogRecord × Except Failure Draft
  | [] => ([], .ok s)
  | op :: rest =>
    match op.apply s with
    | .error fault => ([], .error (.operation index op.name fault))
    | .ok (log, s) =>
      let (others, result) := applyFrom (index + 1) s rest
      (log ++ .applied index op.name :: others, result)

end Operation

namespace Recipe

/-- Reads a recipe of the known schema; the path only says where it was found. -/
def parse (path text : Text) : Except Failure Recipe :=
  match ofText? text with
  | none => .error (.recipe path)
  | some r => if r.schemaVersion = schema then .ok r else .error (.schema r.schemaVersion)

def build (r : Recipe) : List LogRecord × Except Failure Draft :=
  Operation.applyFrom 0 .empty r.operations

def render (r : Recipe) : List LogRecord × Except Failure Text :=
  let (log, result) := r.build
  (log, result.map Draft.document)

end Recipe

end LslScript
