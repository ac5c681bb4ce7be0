import ObjcLens.Text.Basic

/-!
# Numerals

Decimal and hexadecimal texts of numbers. Hexadecimal digits are lower case unless said
otherwise, and `hex0x` writes the `0x` in front, also for zero.
-/

namespace ObjcLens.Text

/-- The digits of a number in a base, least significant first. The fuel bounds their count. -/
def digitsRev (base : Nat) : Nat → Nat → List Nat
  | 0, _ => []
  | fuel + 1, n => if n < base then [n] else n % base :: digitsRev base fuel (n / base)

/-- The letter of a digit below 36, the letters after `9` in lower case. -/
def digitByte (d : Nat) : UInt8 := if d < 10 then (0x30 + d).toUInt8 else (0x57 + d).toUInt8

/-- The letter of a digit below 36, the letters after `9` in upper case. -/
def digitByteUpper (d : Nat) : UInt8 := if d < 10 then (0x30 + d).toUInt8 else (0x37 + d).toUInt8

/-- The numeral of a number in a base from 2 to 36, without leading zeros. -/
def inBase (base n : Nat) : Text := ((digitsRev base (n.log2 + 1) n).reverse).map digitByte

/-- The decimal numeral of a natural number. -/
def dec (n : Nat) : Text := inBase 10 n

/-- The decimal numeral of an integer, with a minus sign in front of a negative one. -/
def decInt : Int → Text
  | .ofNat n => dec n
  | .negSucc n => 0x2D :: dec (n + 1)

/-- The text padded on the left with zeros to a number of bytes. -/
def zeroPad (width : Nat) (s : Text) : Text := List.replicate (width - s.length) 0x30 ++ s

/-- The hexadecimal numeral. -/
def hex (n : Nat) : Text := inBase 16 n

/-- The hexadecimal numeral after `0x`. -/
def hex0x (n : Nat) : Text := "0x" ++ hex n

/-- The hexadecimal numeral of an integer after `0x`, a minus sign before both. -/
def hexInt0x : Int → Text
  | .ofNat n => hex0x n
  | .negSucc n => 0x2D :: hex0x (n + 1)

/-- The hexadecimal numeral after `0x`, with at least a number of digits. -/
def hexPad0x (width n : Nat) : Text := "0x" ++ zeroPad width (hex n)

/-- The two hexadecimal digits of a byte. -/
def hexByte (b : UInt8) : Text := [digitByte (b.toNat / 16), digitByte (b.toNat % 16)]

/-- The two upper-case hexadecimal digits of a byte. -/
def hexByteUpper (b : UInt8) : Text :=
  [digitByteUpper (b.toNat / 16), digitByteUpper (b.toNat % 16)]

/-- The hexadecimal digits of the bytes one after the other. -/
def hexBytes (bs : Text) : Text := bs.flatMap hexByte

end ObjcLens.Text
