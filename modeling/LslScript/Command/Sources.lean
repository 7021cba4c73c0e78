import LslScript.Files.FileSystem
import LslScript.Recipe.Run

/-!
# Recipe files

Recipes are read from a file, or from all files below a directory whose names end as those of
recipes do. A recipe found in a directory is called by its path from there without this ending, with
slashes for backslashes.
-/

namespace LslScript

namespace Recipe

def suffix : Text := ".recipe.json"

def ofFile (fs : FileSystem) (path : Text) : Except Failure Recipe :=
  match fs.read path with
  | .error error => .error (.read path error)
  | .ok t => parse path t

def stem? (path : Text) : Option Text :=
  Text.before? suffix (path.map fun c => if c = '\\' then '/' else c)

/-- Puts a recipe among others, which are in the order of their names; it takes the place of one
with the same name. -/
def insert (stem : Text) (r : Recipe) : List (Text × Recipe) → List (Text × Recipe)
  | [] => [(stem, r)]
  | (other, s) :: rest =>
    if stem = other then (stem, r) :: rest
    else if stem < other then (stem, r) :: (other, s) :: rest
    else (other, s) :: insert stem r rest

/-- The recipes in what stands below a directory, in the order of their names. Each is read by its
path, and a directory must be found by its own. -/
def collect (fs : FileSystem) (directory : Text) :
    List (Text × Entry) → List (Text × Recipe) → Except Failure (List (Text × Recipe))
  | [], known => .ok known
  | (path, entry) :: rest, known =>
    let full := Path.join directory path
    match entry, stem? path with
    | .directory, _ =>
      match fs.find full with
      | .error error => .error (.read full (.walk error))
      | .ok _ => collect fs directory rest known
    | .file _, none => collect fs directory rest known
    | .file _, some stem =>
      match ofFile fs full with
      | .error failure => .error failure
      | .ok r => collect fs directory rest (insert stem r known)

def ofDirectory (fs : FileSystem) (directory : Text) : Except Failure (List (Text × Recipe)) :=
  match fs.below directory with
  | .error error => .error (.read directory (.walk error))
  | .ok found =>
    match collect fs directory found [] with
    | .error failure => .error failure
    | .ok [] => .error (.noRecipes directory)
    | .ok recipes => .ok recipes

end Recipe

end LslScript
