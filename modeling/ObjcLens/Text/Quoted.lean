import ObjcLens.Text.Numeral
import ObjcLens.Text.Printable

/-!
# Quoted text

A text between quotation marks in which everything that cannot be shown is escaped. Malformed
bytes are written as `\x` escapes, code points that are not printable by a letter if they have
one and by their number otherwise.
-/

namespace ObjcLens

namespace Text

/-- The letter that stands for a control character behind a backslash. -/
def escapeLetter? : Nat → Option Char
  | 7 => some 'a'
  | 8 => some 'b'
  | 9 => some 't'
  | 10 => some 'n'
  | 11 => some 'v'
  | 12 => some 'f'
  | 13 => some 'r'
  | _ => none

/-- A code point inside quotation marks. -/
def quoteCode (code : Nat) : Text :=
  if code = 0x22 || code = 0x5C then [0x5C, code.toUInt8]
  else if Rune.isPrintable code then Rune.encode code
  else match escapeLetter? code with
    | some c => [0x5C, byte c]
    | none =>
      if code < 0x20 || code = 0x7F then "\\x" ++ zeroPad 2 (hex code)
      else if code < 0x10000 then "\\u" ++ zeroPad 4 (hex code)
      else "\\U" ++ zeroPad 8 (hex code)

/-- The escaped form of a text; the number counts the bytes that still belong to the last
character. -/
def quoteAux : Nat → Text → Text
  | _, [] => []
  | skip + 1, _ :: rest => quoteAux skip rest
  | 0, b :: rest =>
    let r := Rune.decode b rest
    (if r.isMalformed then "\\x" ++ hexByte b else quoteCode r.code) ++ quoteAux (r.width - 1) rest

/-- The text between quotation marks. -/
def quote (s : Text) : Text := byte '"' :: quoteAux 0 s ++ [byte '"']

end Text

end ObjcLens
