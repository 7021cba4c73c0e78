import LslScript.Draft.Edit

/-!
# Steps

One question or edit, as a value. A step always leaves a draft: the one it was run on if it is a
question or is refused.
-/

namespace LslScript

inductive Step
  | declareState (state : Text)
  | registerEvent (state : Text) (event : Event) (idents : Option (List Text))
  | addEventLine (state : Text) (event : Event) (content : Text)
  | addCall (state : Text) (event : Event) (call : Call)
  | defineFunction (name : Text) (params : List (ValueType × Text))
  | defineFunctionOfPairs (name : Text) (groups : List (List Text))
  | addFunctionLine (name content : Text)
  | addBlankLine (name : Text)
  | setDocument (text : Text)
  | reset
  | isWritten (state : Text)
  | isEmpty
  | stateNames
  | functionNames
  | eventsOf (state : Text)
  | document
  | expanded
deriving DecidableEq

inductive Answer
  | done
  | state (name : StateName)
  | function (name : Text)
  | flag (value : Bool)
  | states (names : List StateName)
  | functions (names : List Text)
  | events (events : Option (List Event))
  | text (text : Text)
deriving DecidableEq

structure Outcome where
  answer : Except Fault Answer
  log : List LogRecord
  draft : Draft

namespace Outcome

def answered (d : Draft) (answer : Answer) : Outcome := ⟨.ok answer, [], d⟩

/-- The outcome of an edit on `d`. -/
def ofEdit (d : Draft) : Except Fault (Answer × List LogRecord × Draft) → Outcome
  | .ok (answer, log, d) => ⟨.ok answer, log, d⟩
  | .error fault => ⟨.error fault, [], d⟩

end Outcome

namespace Step

def run (d : Draft) : Step → Outcome
  | declareState state =>
    .ofEdit d ((d.declareState state).map fun (name, d) => (.state name, [], d))
  | registerEvent state event idents =>
    .ofEdit d ((d.registerEvent state event idents).map fun (log, d) => (.done, log, d))
  | addEventLine state event content =>
    .ofEdit d ((d.addEventLine state event content).map (.done, [], ·))
  | addCall state event call => .ofEdit d ((d.addCall state event call).map (.done, [], ·))
  | defineFunction name params =>
    .ofEdit d do
      let params ← (params.mapM fun (type, ident) => Param.named type ident).mapError .param
      let (name, d) ← d.defineFunction name params
      return (.function name, [], d)
  | defineFunctionOfPairs name groups =>
    .ofEdit d ((d.defineFunctionOfPairs name groups).map fun (name, d) => (.function name, [], d))
  | addFunctionLine name content =>
    .ofEdit d ((d.addFunctionLine name content).map (.done, [], ·))
  | addBlankLine name => .ofEdit d ((d.addBlankLine name).map (.done, [], ·))
  | setDocument text => .ofEdit d ((Draft.ofDocument text).map (.done, [], ·))
  | reset => ⟨.ok .done, [], .empty⟩
  | isWritten state => .answered d (.flag (d.isWritten state))
  | isEmpty => .answered d (.flag d.isEmpty)
  | stateNames => .answered d (.states d.stateNames)
  | functionNames => .answered d (.functions d.functionNames)
  | eventsOf state => .answered d (.events (d.eventsOf? state))
  | document => .answered d (.text d.document)
  | expanded => .answered d (.text d.expanded)

end Step

namespace Draft

/-- The outcomes of steps run one after the other. -/
def run (d : Draft) : List Step → List Outcome
  | [] => []
  | step :: steps =>
    let outcome := step.run d
    outcome :: outcome.draft.run steps

end Draft

end LslScript
