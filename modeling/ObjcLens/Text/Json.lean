import ObjcLens.Text.Numeral
import ObjcLens.Text.Rune

/-!
# JSON text

Strings and objects of strings as JSON. The characters that are special in markup and the two
line separators are written as escapes, so that the text can stand inside a web page. Malformed
bytes become the replacement character.
-/

namespace ObjcLens

namespace Text

/-- A code point as a JSON escape. -/
def jsonEscape (code : Nat) : Text := "\\u" ++ zeroPad 4 (hex code)

/-- A code point inside a JSON string. -/
def jsonCode (code : Nat) : Text :=
  if code = 0x22 || code = 0x5C then [0x5C, code.toUInt8]
  else if code = 0x08 then "\\b"
  else if code = 0x0C then "\\f"
  else if code = 0x0A then "\\n"
  else if code = 0x0D then "\\r"
  else if code = 0x09 then "\\t"
  else if code < 0x20 || code = 0x3C || code = 0x3E || code = 0x26 || code = 0x2028 ||
      code = 0x2029 then
    jsonEscape code
  else Rune.encode code

/-- A text as a JSON string. -/
def jsonString (s : Text) : Text :=
  let shown := (Rune.ofText s).flatMap fun r => jsonCode r.code
  byte '"' :: shown ++ [byte '"']

/-- Names and values as a JSON object, one pair a line. -/
def jsonObject (pairs : List (Text × Text)) : Text :=
  let lines := pairs.map fun (name, value) =>
    Text.ofString "  " ++ jsonString name ++ ": " ++ jsonString value
  if pairs.isEmpty then "\x7b\x7d" else "\x7b\n" ++ joinWith ",\n" lines ++ "\n\x7d"

end Text

end ObjcLens
