import ObjcLens.Bytes
import ObjcLens.Text.Numeral

/-!
# Reading debug sections

A cursor reads numbers and texts of a debug section one behind the other. An error names the
section and the offset at which reading stopped.
-/

namespace ObjcLens

/-- Why debug information cannot be read. -/
inductive DwarfError where
  /-- A section is malformed at an offset. -/
  | decoding (sectionName : Text) (offset : UInt32) (what : Text)
  /-- An entry refers to a place outside of all units. -/
  | outOfRange
deriving DecidableEq, Repr

/-- The text of an error. -/
def DwarfError.message : DwarfError → Text
  | .decoding sectionName offset what =>
    "decoding dwarf section " ++ sectionName ++ " at offset " ++ Text.hex0x offset.toNat ++ ": " ++
      what
  | .outOfRange => "offset out of range"

namespace Dwarf

/-- A place in a section. -/
structure Cursor where
  /-- The name of the section. -/
  name : Text
  /-- The byte order. -/
  order : ByteOrder
  /-- The offset. -/
  offset : UInt32
  /-- The bytes from there on. -/
  data : Text
deriving Inhabited

/-- Reads from a section. -/
abbrev Read := StateT Cursor (Except DwarfError)

namespace Read

/-- Fails at the current place. -/
def fail {α : Type} (what : Text) : Read α := do
  let c ← get
  throw (.decoding c.name c.offset what)

/-- A number of bytes. -/
def bytes (count : Int) : Read Text := do
  let c ← get
  let n := count.toNat
  let taken := c.data.take n
  if count < 0 || taken.length < n then fail "underflow"
  set { c with data := c.data.drop n, offset := c.offset + n.toUInt32 }
  return taken

/-- A number of a fixed number of bytes. -/
def fixed (size : Nat) : Read UInt64 := do
  let taken ← bytes size
  return ((← get).order.toNat taken).toUInt64

/-- A text that ends with a zero byte. -/
def text : Read Text := do
  let c ← get
  match Text.cut? 0 c.data with
  | none => fail "underflow"
  | some (t, rest) =>
    set { c with data := rest, offset := c.offset + (t.length + 1).toUInt32 }
    return t

/-- The number that bytes of seven bits stand for, the lowest ones first, and how many bytes it
takes. The last byte has its highest bit clear. -/
def varintOf (shift : Nat) : Text → Option (Nat × Nat)
  | [] => none
  | b :: rest =>
    let part := (b.toNat % 128) * Nat.pow 2 shift
    if b < 0x80 then some (part, 1)
    else (varintOf (shift + 7) rest).map fun (value, count) => (value + part, count + 1)

/-- A number of a variable number of bytes, reduced to 64 bits. Zero if it has no last byte; then
nothing is read. -/
def varint : Read UInt64 := do
  let c ← get
  match varintOf 0 c.data with
  | none => return 0
  | some (value, count) =>
    set { c with data := c.data.drop count, offset := c.offset + count.toUInt32 }
    return value.toUInt64

/-- The length of a unit, and whether its offsets have 64 bits. -/
def unitLength : Read (UInt32 × Bool) := do
  let length := (← fixed 4).toUInt32
  if length = 0xFFFFFFFF then return ((← fixed 8).toUInt32, true)
  else if 0xFFFFFFF0 ≤ length then fail "unit length has reserved value"
  else return (length, false)

/-- An offset of 32 or 64 bits. -/
def offset (is64 : Bool) : Read UInt64 := fixed (if is64 then 8 else 4)

end Read

end Dwarf

end ObjcLens
