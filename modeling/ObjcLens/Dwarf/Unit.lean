import ObjcLens.Dwarf.Cursor

/-!
# Units of debug information

Debug information consists of units. A unit is a header and a tree of entries, whose form is
described by a table of abbreviations. `Dwarf.Info.ofSections` finds the units.
-/

namespace ObjcLens

namespace Dwarf

/-- The forms of attribute values that are known. -/
def isKnownForm (form : UInt16) : Bool :=
  (1 ≤ form && form ≤ 0x2C && form ≠ 2) || form = 0x1F20 || form = 0x1F21

/-- The form whose value stands in the abbreviation. -/
def implicitConst : UInt16 := 0x21

/-- The form that is told in front of each value. -/
def indirectForm : UInt16 := 0x16

/-- An attribute of an abbreviation. -/
structure Attribute where
  /-- What it tells. -/
  name : UInt32
  /-- The form of its value. -/
  form : UInt16

/-- An abbreviation: the shape of entries. -/
structure Abbreviation where
  /-- The number by which entries refer to it. -/
  id : UInt32
  /-- The kind of the entries. -/
  tag : UInt16
  /-- The entries have children. -/
  hasChildren : Bool
  /-- The attributes in order. -/
  attributes : List Attribute

/-- Refuses a form that is not known. -/
def checkForm (form : UInt16) : Read Unit :=
  if isKnownForm form then pure ()
  else Read.fail "cannot determine class of unknown attribute form"

/-- The attributes of an abbreviation. They end with two zeros. The fuel bounds their number. -/
def readAttributes : Nat → Read (List Attribute)
  | 0 => pure []
  | fuel + 1 => do
    let name ← Read.varint
    let form ← Read.varint
    if name = 0 && form = 0 then return []
    else
      checkForm form.toUInt16
      if form.toUInt16 = implicitConst then
        let _ ← Read.varint
      return ⟨name.toUInt32, form.toUInt16⟩ :: (← readAttributes fuel)

/-- The abbreviations of a table, the last one first. A table ends with a zero. The fuel bounds
their number. -/
def readAbbreviations : Nat → List Abbreviation → Read (List Abbreviation)
  | 0, table => pure table
  | fuel + 1, table => do
    let id := (← Read.varint).toUInt32
    if id = 0 then return table
    else
      let tag := (← Read.varint).toUInt16
      let hasChildren := (← Read.fixed 1) ≠ 0
      let attributes ← readAttributes ((← get).data.length + 1)
      readAbbreviations fuel (⟨id, tag, hasChildren, attributes⟩ :: table)

/-- The sections of debug information. -/
structure Sections where
  /-- The tables of abbreviations. -/
  abbrevs : Text := []
  /-- The units. -/
  info : Text := []
  /-- The texts. -/
  str : Text := []

/-- The table of abbreviations at an offset. An offset behind the end leads to an empty table. -/
def abbreviationsAt (order : ByteOrder) (abbrevs : Text) (offset : UInt64) :
    Except DwarfError (List Abbreviation) := do
  let data := abbrevs.drop offset.toNat
  let (table, _) ← (readAbbreviations (data.length + 1) []).run ⟨"abbrev", order, 0, data⟩
  return table

/-- A unit. -/
structure CompilationUnit where
  /-- The offset of the unit. -/
  base : UInt32
  /-- The offset of its entries. -/
  offset : UInt32
  /-- The bytes of its entries. -/
  data : Text
  /-- The version of the format. -/
  version : Nat
  /-- Offsets have 64 bits. -/
  is64 : Bool
  /-- The number of bytes of an address. -/
  addressSize : Nat
  /-- The abbreviations, of which the first with a number counts. -/
  table : List Abbreviation
deriving Inhabited

/-- The version of a unit, which must be known. -/
def readVersion (least most : Nat) : Read Nat := do
  let version := (← Read.fixed 2).toNat
  if version < least || most < version then
    Read.fail ("unsupported DWARF version " ++ Text.dec version)
  return version

/-- The number of units. Their lengths must fit the section. The fuel bounds their number. -/
def countUnits : Nat → Read Nat
  | 0 => pure 0
  | fuel + 1 => do
    if (← get).data.isEmpty then return 0
    else
      let (length, _) ← Read.unitLength
      let _ ← Read.bytes length.toNat
      return (if length = 0 then 0 else 1) + (← countUnits fuel)

/-- The first length that is not zero. The fuel bounds the number of zeros. -/
def nextLength : Nat → Read (UInt32 × Bool)
  | 0 => pure (0, false)
  | fuel + 1 => do
    let (length, is64) ← Read.unitLength
    if length = 0 then nextLength fuel else return (length, is64)

/-- The rest of a unit whose length was read in front of an offset. -/
def restOfUnit (start length : UInt32) : Read Text := do
  let used := (← get).offset - start
  Read.bytes (length - used).toNat

/-- Skips what units of special types have behind the common header. -/
def skipUnitExtra (type : UInt64) (is64 : Bool) : Read Unit := do
  if type = 4 || type = 5 then
    let _ ← Read.fixed 8
  if type = 2 || type = 6 then
    let _ ← Read.fixed 8
    let _ ← Read.offset is64

/-- The next unit. -/
def readUnit (abbrevs : Text) : Read CompilationUnit := do
  let base := (← get).offset
  let (length, is64) ← nextLength ((← get).data.length + 1)
  let start := (← get).offset
  let version ← readVersion 2 5
  let type ← if 5 ≤ version then Read.fixed 1 else pure 0
  let early ← if 5 ≤ version then Read.fixed 1 else pure 0
  let table ← abbreviationsAt (← get).order abbrevs (← Read.offset is64)
  let addressSize ← if version < 5 then Read.fixed 1 else pure early
  skipUnitExtra type is64
  let offset := (← get).offset
  let data ← restOfUnit start length
  return { base, offset, data, version, is64, addressSize := addressSize.toNat, table }

/-- A number of units. -/
def readUnits (abbrevs : Text) : Nat → Read (List CompilationUnit)
  | 0 => pure []
  | count + 1 => do
    let first ← readUnit abbrevs
    return first :: (← readUnits abbrevs count)

/-- Debug information. -/
structure Info where
  /-- The byte order. -/
  order : ByteOrder
  /-- The units in order. -/
  units : List CompilationUnit
  /-- The texts. -/
  str : Text

/-- The byte order, which the version of the first unit tells: it is a small number of two
bytes. -/
def sniffOrder (info : Text) : Except DwarfError ByteOrder := do
  let size := info.length
  if size < 6 then throw (.decoding "info" size.toUInt32 "too short")
  let isWide := (info.take 4).all (· = 0xFF)
  if isWide && size < 14 then throw (.decoding "info" size.toUInt32 "too short")
  let place := if isWide then 12 else 4
  match info.getD place 0, info.getD (place + 1) 0 with
  | 0, 0 => throw (.decoding "info" 4 "unsupported version 0")
  | 0, _ => return .big
  | _, 0 => return .little
  | _, _ => throw (.decoding "info" 4 "cannot determine byte order")

/-- The debug information of sections. -/
def Info.ofSections (s : Sections) : Except DwarfError Info := do
  let order ← sniffOrder s.info
  let cursor : Cursor := ⟨"info", order, 0, s.info⟩
  let (count, _) ← (countUnits (s.info.length + 1)).run cursor
  let (units, _) ← (readUnits s.abbrevs count).run cursor
  return ⟨order, units, s.str⟩

/-- The offset of the abbreviations of a type unit. If it is cut short, the first table is read in
its place, and an error of that table goes first. -/
def readTypeTableOffset (abbrevs : Text) (is64 : Bool) : Read UInt64 :=
  tryCatch (Read.offset is64) fun found => do
    let _ ← abbreviationsAt (← get).order abbrevs 0
    throw found

/-- Refuses type units that are malformed. The fuel bounds their number. -/
def checkTypeUnits (abbrevs : Text) : Nat → Read Unit
  | 0 => pure ()
  | fuel + 1 => do
    if (← get).data.isEmpty then pure ()
    else
      let (length, is64) ← Read.unitLength
      let start := (← get).offset
      let _ ← readVersion 4 4
      let _ ← abbreviationsAt (← get).order abbrevs (← readTypeTableOffset abbrevs is64)
      let _ ← Read.fixed 1
      let _ ← Read.fixed 8
      let typeOffset ← Read.offset is64
      if 0xFFFFFFFF < typeOffset then Read.fail "type unit type offset overflow"
      let _ ← restOfUnit start length
      checkTypeUnits abbrevs fuel

/-- Refuses a section of type units that is malformed. -/
def Info.checkTypes (info : Info) (abbrevs name data : Text) : Except DwarfError Unit := do
  let _ ← (checkTypeUnits abbrevs (data.length + 1)).run ⟨name, info.order, 0, data⟩

end Dwarf

end ObjcLens
