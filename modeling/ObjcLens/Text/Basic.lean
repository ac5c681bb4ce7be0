/-!
# Byte texts

Names, type encodings and messages are byte strings: they come out of binary images and need
not be valid UTF-8. A `Text` is a list of bytes, so the functions of lists apply to it; this
module adds the few that speak of separators and of literals.

* `Text.ofString`: the bytes of a literal, inserted as a coercion.
* `Text.splitOn`, `Text.splitOnText`, `Text.replaceAll`: cutting at separators.
* `Text.joinWith`: the inverse of cutting.
* `Text.le`: the order of texts by bytes.
-/

namespace ObjcLens

/-- A text as it stands in an image: a sequence of bytes, usually but not always valid UTF-8. -/
abbrev Text := List UInt8

/-- The byte of an ASCII character. -/
def byte (c : Char) : UInt8 := c.toUInt8

namespace Text

/-- The UTF-8 bytes of a string. -/
def ofString (s : String) : Text := s.toUTF8.data.toList

instance : Coe String Text := ⟨ofString⟩

/-- The byte is one of the ten decimal digits. -/
def isDigit (b : UInt8) : Bool := 0x30 ≤ b && b ≤ 0x39

/-- The byte is an ASCII letter. -/
def isLetter (b : UInt8) : Bool := (0x41 ≤ b && b ≤ 0x5A) || (0x61 ≤ b && b ≤ 0x7A)

/-- The value of a list of decimal digits, most significant first. -/
def digitsValue (ds : Text) : Nat := ds.foldl (fun n d => 10 * n + (d.toNat - 0x30)) 0

/-- The pieces between the occurrences of a separator byte. There is one piece more than there
are separators, so the empty text has one empty piece. -/
def splitOn (sep : UInt8) : Text → List Text
  | [] => [[]]
  | c :: rest =>
    if c = sep then [] :: splitOn sep rest
    else match splitOn sep rest with
      | [] => [[c]]
      | piece :: pieces => (c :: piece) :: pieces

/-- What stands before and after the first occurrence of a byte, or nothing if it does not occur. -/
def cut? (sep : UInt8) (s : Text) : Option (Text × Text) :=
  match s.dropWhile (· != sep) with
  | [] => none
  | _ :: rest => some (s.takeWhile (· != sep), rest)

/-- What stands before and after the first occurrence of a text. -/
def cutText? (sep : Text) : Text → Option (Text × Text)
  | [] => if sep.isEmpty then some ([], []) else none
  | c :: rest =>
    if sep.isPrefixOf (c :: rest) then some ([], (c :: rest).drop sep.length)
    else (cutText? sep rest).map fun (before, after) => (c :: before, after)

/-- What stands before and after the last occurrence of a byte. -/
def cutLast? (sep : UInt8) (s : Text) : Option (Text × Text) :=
  (cut? sep s.reverse).map fun (after, before) => (before.reverse, after.reverse)

/-- The pieces between the occurrences of a separator text, found from the left. The fuel bounds
the number of pieces. -/
def splitOnTextFuel (sep : Text) : Nat → Text → List Text
  | 0, s => [s]
  | fuel + 1, s => match cutText? sep s with
    | none => [s]
    | some (piece, rest) => piece :: splitOnTextFuel sep fuel rest

/-- The pieces between the occurrences of a non-empty separator text, found from the left. -/
def splitOnText (sep s : Text) : List Text := splitOnTextFuel sep s.length s

/-- The pieces joined, with a separator between neighbours. -/
def joinWith (sep : Text) : List Text → Text
  | [] => []
  | [piece] => piece
  | piece :: pieces => piece ++ sep ++ joinWith sep pieces

/-- Every occurrence of a non-empty text, found from the left, replaced by another. -/
def replaceAll (old new s : Text) : Text := joinWith new (splitOnText old s)

/-- The text without the leading and trailing bytes of a set. -/
def trim (drop : UInt8 → Bool) (s : Text) : Text :=
  ((s.dropWhile drop).reverse.dropWhile drop).reverse

/-- The text without a given beginning, or all of it if it does not begin so. -/
def dropLeading (lead s : Text) : Text := if lead.isPrefixOf s then s.drop lead.length else s

/-- The text is a part of the other. -/
def isInfixOf (part s : Text) : Bool := (cutText? part s).isSome

/-- The order of texts by their bytes, a proper beginning before its continuations. -/
def le (a b : Text) : Bool := decide (a ≤ b)

/-- The texts in byte order. -/
def sort (ts : List Text) : List Text := ts.mergeSort le

/-- A number of blanks. -/
def blanks (count : Nat) : Text := List.replicate count 0x20

/-- The text padded on the right with blanks to a number of bytes. -/
def padRight (width : Nat) (s : Text) : Text := s ++ blanks (width - s.length)

/-- The text padded on the left with blanks to a number of bytes. -/
def padLeft (width : Nat) (s : Text) : Text := blanks (width - s.length) ++ s

end Text

end ObjcLens
