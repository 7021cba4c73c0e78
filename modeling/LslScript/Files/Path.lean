import LslScript.Text.Basic

/-!
# Paths

A path is read as pieces set apart by slashes. Empty pieces, and dots other than the first piece, do
not count.
-/

namespace LslScript.Path

/-- The most bytes a path may have. -/
def limit : Nat := 4095

/-- The most bytes a name may have. -/
def nameLimit : Nat := 255

def isAbsolute (path : Text) : Bool := Text.startsWith "/" path

def endsInSlash (path : Text) : Bool := (Text.before? "/" path).isSome

def pieces (path : Text) : List Text := path.splitOn '/'

def names (path : Text) : List Text := (pieces path).filter (!·.isEmpty)

/-- Whether a piece counts, given how many stand before it. -/
def counts (before : Nat) (piece : Text) : Bool :=
  !piece.isEmpty && (before == 0 || piece != ['.'])

/-- Drops what does not count from the end of pieces, which are given last first. -/
def settle : List Text → List Text
  | [] => []
  | piece :: before =>
    if counts before.length piece then piece :: before else settle before

def ofPieces (reversed : List Text) : Text := List.intercalate "/" reversed.reverse

/-- The directory that a path leads into. It is the current one if the path is only a name. -/
def directoryOf (path : Text) : Text :=
  match settle (pieces path).reverse with
  | [] => "."
  | _ :: before =>
    match settle before with
    | [] => if isAbsolute path then "/" else "."
    | reversed => ofPieces reversed

def upwardsFrom : List Text → List Text
  | [] => []
  | piece :: before =>
    if counts before.length piece then ofPieces (piece :: before) :: upwardsFrom before
    else upwardsFrom before

/-- A path and the directories above it, as far as it names them, from the innermost outwards. -/
def upwards (path : Text) : List Text := upwardsFrom (pieces path).reverse

def join (directory path : Text) : Text :=
  if isAbsolute path || directory.isEmpty then path
  else if endsInSlash directory then directory ++ path
  else directory ++ "/" ++ path

end LslScript.Path
