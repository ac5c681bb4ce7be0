import ObjcLens.Text.Basic

/-!
# Numbers as bytes

Images are written in either byte order. `ByteOrder` reads and writes numbers of a fixed number
of bytes; the byte sequences are texts.
-/

namespace ObjcLens

/-- The order of the bytes of a number. -/
inductive ByteOrder where
  | little
  | big
deriving DecidableEq, Repr, Inhabited

namespace ByteOrder

/-- The number that a sequence of bytes stands for, least significant byte first. -/
def littleToNat : Text → Nat
  | [] => 0
  | b :: rest => b.toNat + 256 * littleToNat rest

/-- A number as a sequence of bytes, least significant byte first. Higher parts are dropped. -/
def littleBytes : Nat → Nat → Text
  | 0, _ => []
  | count + 1, n => (n % 256).toUInt8 :: littleBytes count (n / 256)

/-- The number that a sequence of bytes stands for. -/
def toNat : ByteOrder → Text → Nat
  | .little, bs => littleToNat bs
  | .big, bs => littleToNat bs.reverse

/-- A number as a sequence of bytes. -/
def bytes : ByteOrder → Nat → Nat → Text
  | .little, count, n => littleBytes count n
  | .big, count, n => (littleBytes count n).reverse

/-- A 16-bit number from its bytes. -/
def word16 (order : ByteOrder) (bs : Text) : UInt16 := (order.toNat (bs.take 2)).toUInt16

/-- A 32-bit number from its bytes. -/
def word32 (order : ByteOrder) (bs : Text) : UInt32 := (order.toNat (bs.take 4)).toUInt32

/-- A 64-bit number from its bytes. -/
def word64 (order : ByteOrder) (bs : Text) : UInt64 := (order.toNat (bs.take 8)).toUInt64

/-- The four bytes of a 32-bit number. -/
def bytes32 (order : ByteOrder) (n : UInt32) : Text := order.bytes 4 n.toNat

/-- The eight bytes of a 64-bit number. -/
def bytes64 (order : ByteOrder) (n : UInt64) : Text := order.bytes 8 n.toNat

/-- The name of a byte order. -/
def name : ByteOrder → Text
  | .little => "LittleEndian"
  | .big => "BigEndian"

end ByteOrder

/-- A 64-bit number read as a signed one. -/
def signed64 (n : UInt64) : Int := n.toInt64.toInt

/-- A 32-bit number read as a signed one. -/
def signed32 (n : UInt32) : Int := n.toInt32.toInt

/-- An integer reduced to 64 bits. -/
def wrap64 (i : Int) : UInt64 := UInt64.ofInt i

/-- The bytes up to the first zero byte, all of them if there is none. -/
def untilZero (bs : Text) : Text := bs.takeWhile (· != 0)

end ObjcLens
