import ObjcLens.Text.Rune

/-!
# Texts of 16-bit units

A text can be written in units of two bytes, with a mark in front that tells the order of the bytes.
A character beyond the first 65536 takes two units.
-/

namespace ObjcLens

namespace Text

/-- The units of two bytes, the byte of the flag's order first. A last byte that is alone is
left out. -/
def units (littleEndian : Bool) : Text → List Nat
  | a :: b :: rest =>
    (if littleEndian then b.toNat * 256 + a.toNat else a.toNat * 256 + b.toNat) ::
      units littleEndian rest
  | _ => []

/-- The unit is the first or the second half of a pair. -/
def isHalf (unit : Nat) : Bool := 0xD800 ≤ unit && unit < 0xE000

/-- The unit is the second half of a pair. -/
def isSecondHalf (unit : Nat) : Bool := 0xDC00 ≤ unit && unit < 0xE000

/-- The code points of units; nothing stands for a half without its other half. -/
def codesOfUnits : List Nat → List (Option Nat)
  | [] => []
  | [unit] => [if isHalf unit then none else some unit]
  | unit :: next :: rest =>
    if !isHalf unit then some unit :: codesOfUnits (next :: rest)
    else if !isSecondHalf next then none :: codesOfUnits (next :: rest)
    else if isSecondHalf unit then none :: codesOfUnits rest
    else some (0x10000 + (unit - 0xD800) * 0x400 + (next - 0xDC00)) :: codesOfUnits rest

/-- The order of the bytes that the mark at the start of a text tells, and what follows it. -/
def wideMark? : Text → Option (Bool × Text)
  | 0xFF :: 0xFE :: rest => some (true, rest)
  | 0xFE :: 0xFF :: rest => some (false, rest)
  | _ => none

/-- What follows the mark of a text that is written in bytes. -/
def narrowMark? : Text → Option Text
  | 0xEF :: 0xBB :: 0xBF :: rest => some rest
  | _ => none

end Text

end ObjcLens
