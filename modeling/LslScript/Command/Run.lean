import LslScript.Command.Arguments
import LslScript.Command.Sources
import LslScript.Recipe.Writing

/-!
# Commands

What a command does to a file system, what it prints and what it logs. Of a batch nothing is written
before all its recipes are rendered.
-/

namespace LslScript

structure Effect where
  files : FileSystem
  log : List LogRecord
  result : Except Failure Text

namespace Command

def success : Text := "RESULT:OK\n"

def written (path : Text) : Text := "SCRIPT_OUT:" ++ path ++ "\n"

/-! ## One recipe -/

def persist (fs : FileSystem) (path script : Text) :
    FileSystem × List LogRecord × Except Failure Unit :=
  match fs.persist path script with
  | (fs, .ok ()) => (fs, [.wrote path], .ok ())
  | (fs, .error failure) => (fs, [], .error failure)

def runBuild (fs : FileSystem) (recipe : Text) (out : Option Text) (keepPlaceholders : Bool) :
    Effect :=
  match Recipe.ofFile fs recipe with
  | .error failure => ⟨fs, [], .error failure⟩
  | .ok r =>
    match r.render, out with
    | (log, .error failure), _ => ⟨fs, log, .error failure⟩
    | (log, .ok script), some path =>
      let (fs, records, result) := persist fs path script
      ⟨fs, log ++ records, result.map fun _ => success ++ written path⟩
    | (log, .ok script), none =>
      ⟨fs, log, .ok (success ++ if keepPlaceholders then script else Placeholder.expand script)⟩

/-! ## All recipes of a directory -/

/-- The scripts of recipes, each with the path that its name leads to. -/
def renderAll (outDir : Text) :
    List (Text × Recipe) → List LogRecord × Except Failure (List (Text × Text))
  | [] => ([], .ok [])
  | (stem, r) :: rest =>
    match r.render with
    | (log, .error failure) => (log, .error failure)
    | (log, .ok script) =>
      let (records, result) := renderAll outDir rest
      (log ++ records, result.map ((Path.join outDir (stem ++ ".lsl"), script) :: ·))

def persistAll (fs : FileSystem) :
    List (Text × Text) → FileSystem × List LogRecord × Except Failure Unit
  | [] => (fs, [], .ok ())
  | (path, script) :: rest =>
    match persist fs path script with
    | (fs, log, .error failure) => (fs, log, .error failure)
    | (fs, log, .ok ()) =>
      let (fs, records, result) := persistAll fs rest
      (fs, log ++ records, result)

def batchReport (scripts : List (Text × Text)) : Text :=
  success ++ scripts.flatMap (fun (path, _) => written path) ++
    "SCRIPT_COUNT:" ++ Text.ofNat scripts.length ++ "\n"

def runBatch (fs : FileSystem) (recipesDir outDir : Text) : Effect :=
  match Recipe.ofDirectory fs recipesDir with
  | .error failure => ⟨fs, [], .error failure⟩
  | .ok recipes =>
    match renderAll outDir recipes with
    | (log, .error failure) => ⟨fs, log, .error failure⟩
    | (log, .ok scripts) =>
      let (fs, records, result) := persistAll fs scripts
      ⟨fs, log ++ records, result.map fun _ => batchReport scripts⟩

/-! ## The catalogue -/

def catalogue (json : Bool) : Text :=
  if json then (Json.array (Event.all.map Event.toJson)).text ++ "\n"
  else Text.unlines (Event.all.map Event.display)

/-! ## Any command line -/

def perform (fs : FileSystem) : Command → Effect
  | build recipe out keepPlaceholders => runBuild fs recipe out keepPlaceholders
  | batch recipesDir outDir => runBatch fs recipesDir outDir
  | events json => ⟨fs, [], .ok (catalogue json)⟩

/-- What is printed of a failure: its code, and on a line of its own what is said about it. -/
def failureReport (failure : Failure) : Text :=
  "RESULT:ERROR\nERROR_CODE:" ++ failure.code ++ "\n" ++
    match failure.message? with
    | some message => "ERROR_MSG_JSON:" ++ Spelling.quoted message ++ "\n"
    | none => []

structure Result where
  exit : Nat
  stdout : Text
  log : List LogRecord
  files : FileSystem

def run (fs : FileSystem) (arguments : List Text) : Result :=
  match ofArguments? arguments with
  | none => ⟨2, [], [], fs⟩
  | some command =>
    let effect := command.perform fs
    match effect.result with
    | .ok printed => ⟨0, printed, effect.log, effect.files⟩
    | .error failure =>
      let record := failure.message?.toList.map LogRecord.failed
      ⟨1, failureReport failure, effect.log ++ record, effect.files⟩

end Command

end LslScript
