import LslScript.Fault
import LslScript.Recipe.Basic

/-!
# Failures

Why a recipe or a command came to no result: a file could not be read or written, a recipe is not
one, or an operation was refused.
-/

namespace LslScript

inductive FileError
  | notFound | alreadyExists | notADirectory | isADirectory | nameTooLong | nulInName
deriving DecidableEq

def FileError.text : FileError → Text
  | notFound => "No such file or directory (os error 2)"
  | alreadyExists => "File exists (os error 17)"
  | notADirectory => "Not a directory (os error 20)"
  | isADirectory => "Is a directory (os error 21)"
  | nameTooLong => "File name too long (os error 36)"
  | nulInName => "file name contained an unexpected NUL byte"

inductive ReadError
  | file (error : FileError)
  | notText
  | walk (error : FileError)
deriving DecidableEq

inductive Failure
  | read (path : Text) (error : ReadError)
  | recipe (path : Text)
  | schema (found : Text)
  | noRecipes (path : Text)
  | write (path : Text) (error : FileError)
  | operation (index : Nat) (name : Text) (fault : Fault)
deriving DecidableEq

namespace Failure

/-- A code that callers can rely on; a refused operation has that of its fault. -/
def code : Failure → Text
  | read _ _ => "API_READ_FILE"
  | recipe _ => "API_RECIPE_PARSE"
  | schema _ => "API_RECIPE_SCHEMA"
  | noRecipes _ => "API_SOURCE_EMPTY"
  | write _ _ => "API_WRITE_FILE"
  | operation _ _ fault => fault.report.code

def readMessage (path cause : Text) : Text := "Failed to read file " ++ path ++ ": " ++ cause

/-- What is said about a failure. That a text is no recipe is said by the code alone. -/
def message? : Failure → Option Text
  | read path (.file error) => some (readMessage path error.text)
  | read path .notText => some (readMessage path "stream did not contain valid UTF-8")
  | read path (.walk error) =>
    some (readMessage path ("IO error for operation on " ++ path ++ ": " ++ error.text))
  | recipe _ => none
  | schema found =>
    some ("Invalid recipe schema version \"" ++ found ++ "\", expected \"" ++ Recipe.schema ++
      "\".")
  | noRecipes path => some ("No *.recipe.json files under " ++ path ++ ".")
  | write path error => some ("Failed to write file " ++ path ++ ": " ++ error.text)
  | operation index name fault =>
    some ("Recipe operation " ++ Text.ofNat index ++ " (" ++ name ++ ") failed: " ++
      fault.report.text)

end Failure

end LslScript
