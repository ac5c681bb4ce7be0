import ObjcLens.Text.Basic

/-!
# Base 64

Bytes in groups of four letters for three bytes. The last group is filled up with `=`, and line ends
between letters do not count.
-/

namespace ObjcLens

namespace Text

/-- The six bits that a letter stands for. -/
def sixBits? (b : UInt8) : Option Nat :=
  if 0x41 ≤ b && b ≤ 0x5A then some (b.toNat - 0x41)
  else if 0x61 ≤ b && b ≤ 0x7A then some (b.toNat - 0x61 + 26)
  else if isDigit b then some (b.toNat - 0x30 + 52)
  else if b = byte '+' then some 62
  else if b = byte '/' then some 63
  else none

/-- The bytes of a group of letters, the last of which can be filled up. -/
def base64Group? (a b c d : UInt8) (isLast : Bool) : Option Text := do
  let filler := byte '='
  let high := (← sixBits? a) * 64 + (← sixBits? b)
  if isLast && c = filler && d = filler then return [(high / 16).toUInt8]
  let middle := high * 64 + (← sixBits? c)
  if isLast && d = filler then return [(middle / 1024).toUInt8, (middle / 4 % 256).toUInt8]
  let all := middle * 64 + (← sixBits? d)
  return [(all / 65536).toUInt8, (all / 256 % 256).toUInt8, (all % 256).toUInt8]

/-- The bytes of groups of letters. -/
def base64Groups? : Text → Option Text
  | [] => some []
  | a :: b :: c :: d :: rest => do
    let first ← base64Group? a b c d rest.isEmpty
    return first ++ (← base64Groups? rest)
  | _ => none

/-- The bytes that a text in base 64 stands for. -/
def ofBase64? (s : Text) : Option Text :=
  base64Groups? (s.filter fun b => b != 0x0A && b != 0x0D)

end Text

end ObjcLens
