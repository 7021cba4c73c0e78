import LslScript.Failure
import LslScript.Files.Path

/-!
# File systems

A file system is a list of locations with what is found there, and a current directory. A location
is the list of names that lead to it from the root, which is always a directory.
-/

namespace LslScript

abbrev Location := List Text

inductive Contents
  | text (text : Text)
  | binary (bytes : List UInt8)
deriving DecidableEq

inductive Entry
  | directory
  | file (contents : Contents)
deriving DecidableEq

structure FileSystem where
  entries : List (Location × Entry)
  current : Location
deriving DecidableEq

namespace FileSystem

def entry? (fs : FileSystem) (place : Location) : Option Entry :=
  if place.isEmpty then some .directory else fs.entries.lookup place

def set (fs : FileSystem) (place : Location) (entry : Entry) : FileSystem :=
  { fs with entries := fs.entries.filter (·.1 != place) ++ [(place, entry)] }

/-! ## Finding -/

/-- What stands at a place. It is an error to look for a name that is too long. -/
def look (fs : FileSystem) (place : Location) : Except FileError (Option Entry) :=
  if Path.nameLimit < Text.utf8Length (place.getLastD []) then .error .nameTooLong
  else .ok (fs.entry? place)

/-- Takes one name of a path, from a place that must be a directory. -/
def enter (fs : FileSystem) (here : Location) (name : Text) : Except FileError Location :=
  match fs.look here with
  | .error error => .error error
  | .ok none => .error .notFound
  | .ok (some (.file _)) => .error .notADirectory
  | .ok (some .directory) =>
    if name = ['.'] then .ok here
    else if name = ['.', '.'] then .ok here.dropLast
    else .ok (here ++ [name])

/-- The place a path leads to. All but its last name must be there, and the text must be one that a
path can have. -/
def locate (fs : FileSystem) (path : Text) : Except FileError Location :=
  if path.contains '\x00' then .error .nulInName
  else if path.isEmpty then .error .notFound
  else if Path.limit < Text.utf8Length path then .error .nameTooLong
  else (Path.names path).foldlM fs.enter (if Path.isAbsolute path then [] else fs.current)

def find (fs : FileSystem) (path : Text) : Except FileError (Option Entry) :=
  match fs.locate path with
  | .error error => .error error
  | .ok place => fs.look place

def isDirectory (fs : FileSystem) (path : Text) : Bool :=
  match fs.find path with
  | .ok entry => entry == some .directory
  | .error _ => false

def read (fs : FileSystem) (path : Text) : Except ReadError Text :=
  match fs.find path with
  | .error error => .error (.file error)
  | .ok none => .error (.file .notFound)
  | .ok (some .directory) => .error (.file .isADirectory)
  | .ok (some (.file contents)) =>
    if Path.endsInSlash path then .error (.file .notADirectory)
    else
      match contents with
      | .text t => .ok t
      | .binary _ => .error .notText

/-- All that is below a place, by the paths from there. -/
def under (fs : FileSystem) (place : Location) : List (Text × Entry) :=
  fs.entries.filterMap fun (found, entry) =>
    match place.isPrefixOf? found with
    | some (name :: names) => some (List.intercalate "/" (name :: names), entry)
    | _ => none

/-- All that is below a directory. There is nothing below a file. -/
def below (fs : FileSystem) (path : Text) : Except FileError (List (Text × Entry)) :=
  match fs.locate path with
  | .error error => .error error
  | .ok place =>
    match fs.look place with
    | .error error => .error error
    | .ok none => .error .notFound
    | .ok (some (.file _)) => if Path.endsInSlash path then .error .notADirectory else .ok []
    | .ok (some .directory) => .ok (fs.under place)

/-! ## Changing -/

def write (fs : FileSystem) (path text : Text) : Except FileError FileSystem :=
  match fs.locate path with
  | .error error => .error error
  | .ok place =>
    if Path.endsInSlash path then .error .isADirectory
    else
      match fs.look place with
      | .error error => .error error
      | .ok (some .directory) => .error .isADirectory
      | .ok _ => .ok (fs.set place (.file (.text text)))

def makeDirectory (fs : FileSystem) (path : Text) : Except FileError FileSystem :=
  match fs.locate path with
  | .error error => .error error
  | .ok place =>
    match fs.look place with
    | .error error => .error error
    | .ok (some _) => .error .alreadyExists
    | .ok none => .ok (fs.set place .directory)

def ensureDirectory (fs : FileSystem) (path : Text) : FileSystem × Except FileError Unit :=
  match fs.makeDirectory path with
  | .ok fs => (fs, .ok ())
  | .error error => (fs, if fs.isDirectory path then .ok () else .error error)

/-- Makes the first of some directories, of which each stands in the next. If it cannot be made for
want of a directory, the others are made before. -/
def makeDirectories (fs : FileSystem) : List Text → FileSystem × Except FileError Unit
  | [] => (fs, .ok ())
  | path :: above =>
    match fs.makeDirectory path with
    | .error .notFound =>
      match makeDirectories fs above with
      | (fs, .ok ()) => fs.ensureDirectory path
      | failed => failed
    | _ => fs.ensureDirectory path

/-- Writes a script with its placeholders expanded, in a directory that is made if it is not there.
The directories that were made stay if the script cannot be written. -/
def persist (fs : FileSystem) (path script : Text) : FileSystem × Except Failure Unit :=
  let directory := Path.directoryOf path
  match fs.makeDirectories (Path.upwards directory) with
  | (fs, .error error) => (fs, .error (.write directory error))
  | (fs, .ok ()) =>
    match fs.write path (Placeholder.expand script) with
    | .error error => (fs, .error (.write path error))
    | .ok fs => (fs, .ok ())

end FileSystem

end LslScript
