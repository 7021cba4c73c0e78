/-!
# Text

Text is a list of characters, so that every function on it is a recursion on the list. A string
literal stands for the list of its characters.
-/

namespace LslScript

abbrev Text := List Char

instance : Coe String Text := ⟨String.toList⟩

namespace Text

def ofNat (n : Nat) : Text := Nat.toDigits 10 n

def ofInt (n : Int) : Text :=
  if n < 0 then '-' :: ofNat n.natAbs else ofNat n.natAbs

def listing (items : List Text) : Text := List.intercalate ", ".toList items

def utf8Length (t : Text) : Nat := t.foldl (fun n c => n + c.utf8Size) 0

def startsWith (start t : Text) : Bool := start.isPrefixOf t

/-- What follows `start` in `t`, if `t` starts with it. -/
def after? (start t : Text) : Option Text := start.isPrefixOf? t

/-- What precedes `tail` in `t`, if `t` ends with it. -/
def before? (tail t : Text) : Option Text := tail.isSuffixOf? t

end Text

end LslScript
