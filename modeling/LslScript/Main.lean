import LslScript.Command.Run

/-!
# The program

Runs a command on the part of the file system that it names: what is found there is loaded, the
command is run on it, and what the command changed is written back.
-/

namespace LslScript.Program

/-- The paths that a command names, each with whether all that is below it is needed. -/
def paths : Command → List (Text × Bool)
  | .build recipe out _ => (recipe, false) :: (out.map (·, false)).toList
  | .batch recipesDir outDir => [(recipesDir, true), (outDir, true)]
  | .events _ => []

/-- The places that a path leads through, the last one included. -/
def visited (here : Location) : List Text → List Location
  | [] => [here]
  | name :: rest =>
    let next :=
      if name = ['.'] then here else if name = ['.', '.'] then here.dropLast else here ++ [name]
    here :: visited next rest

def diskPath (place : Location) : String := "/" ++ "/".intercalate (place.map String.ofList)

def loadContents (path : String) : IO Contents := do
  let bytes ← IO.FS.readBinFile path
  match String.fromUTF8? bytes with
  | some s => return .text s.toList
  | none => return .binary bytes.toList

/-- What stands at a place. The contents of files that are not recipes are not loaded. -/
def loadEntry (place : Location) (isRecipe : Bool) : IO (Option Entry) := do
  let path := (← IO.currentDir) / diskPath place
  if ← path.isDir then return some .directory
  else if ← path.pathExists then
    if isRecipe then return some (.file (← loadContents (diskPath place)))
    else return some (.file (.binary []))
  else return none

def load (fs : FileSystem) (place : Location) (isRecipe : Bool) : IO FileSystem := do
  match ← loadEntry place isRecipe with
  | some entry => return if place.isEmpty then fs else fs.set place entry
  | none => return fs

partial def loadBelow (fs : FileSystem) (place : Location) : IO FileSystem := do
  let directory := (← IO.currentDir) / diskPath place
  let mut fs := fs
  if ← directory.isDir then
    for item in ← directory.readDir do
      let inner := place ++ [item.fileName.toList]
      let isRecipe := (Recipe.stem? item.fileName.toList).isSome
      fs ← load fs inner isRecipe
      fs ← loadBelow fs inner
  return fs

def loadAll (command : Command) : IO FileSystem := do
  let here := ((← IO.currentDir).toString.splitOn "/").filter (· ≠ "") |>.map (·.toList)
  let mut fs : FileSystem := ⟨[], here⟩
  for (path, below) in paths command do
    let places := visited (if Path.isAbsolute path then [] else here) (Path.names path)
    for place in places do
      fs ← load fs place true
    if below then
      fs ← loadBelow fs (places.getLastD here)
  return fs

def store (before after : FileSystem) : IO Unit := do
  for (place, entry) in after.entries do
    if before.entry? place ≠ some entry then
      match entry with
      | .directory => IO.FS.createDir (diskPath place)
      | .file (.text t) => IO.FS.writeFile (diskPath place) (String.ofList t)
      | .file (.binary _) => pure ()

end LslScript.Program

open LslScript in
def main (arguments : List String) : IO UInt32 := do
  let arguments := arguments.map String.toList
  let before ← match Command.ofArguments? arguments with
    | some command => Program.loadAll command
    | none => pure ⟨[], []⟩
  let result := Command.run before arguments
  Program.store before result.files
  for record in result.log do
    match record.level with
    | .warn | .error => IO.eprintln (String.ofList record.text)
    | .info | .debug => pure ()
  if result.exit = 2 then
    IO.eprintln "usage: build --recipe FILE [--out FILE] [--keep-placeholders]"
    IO.eprintln "       batch --recipes-dir DIR --out-dir DIR"
    IO.eprintln "       events [--json]"
  IO.print (String.ofList result.stdout)
  return result.exit.toUInt32
