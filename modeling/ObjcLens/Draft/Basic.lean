import ObjcLens.CommandCode
import ObjcLens.Cpu
import ObjcLens.FileHeader

/-!
# Drafts of images

A draft is an image that is being put together. Its sections lie at fixed places, one slot of
4096 bytes each, so addresses are known while the contents grow: `Drafting.append` adds bytes to
a section and returns their address.

A step of drafting can fail: a section overflows its slot, or a place does not exist.
-/

namespace ObjcLens

/-- Why a draft cannot be made. -/
inductive DraftError where
  /-- A section does not fit into its slot. -/
  | sectionOverflow (name : Text)
  /-- The load commands do not fit into the slot of the header. -/
  | commandsOverflow
  /-- A section, or a place in a section, does not exist. -/
  | noSuchPlace
deriving DecidableEq, Repr

/-- The text of an error; faults of the caller have none. -/
def DraftError.message? : DraftError → Option Text
  | .sectionOverflow name => some ("machotest: section " ++ name ++ " overflows its slot")
  | .commandsOverflow => some "machotest: load commands overflow the header slot"
  | .noSuchPlace => none

/-- The number of bytes of a slot. -/
def slotSize : Nat := 0x1000

/-- A section of a draft. -/
structure DraftSection where
  /-- The name of the segment. -/
  segment : Text
  /-- The name. -/
  name : Text
  /-- The slot. -/
  slot : Nat
  /-- The flags. -/
  flags : UInt32 := 0
  /-- The size that is stated whatever the contents are; zero for that of the contents. -/
  fixedSize : UInt64 := 0
  /-- The contents. -/
  contents : Text := []
deriving Inhabited

namespace DraftSection

/-- The flags of a section that has no bytes in the file. -/
def zeroFillFlags : UInt32 := 1

/-- The flags of a section of texts. -/
def cstringFlags : UInt32 := 2

/-- The size of a section. -/
def size (s : DraftSection) : UInt64 :=
  if s.fixedSize = 0 then s.contents.length.toUInt64 else s.fixedSize

/-- The offset of a section in the file. -/
def offset (s : DraftSection) : UInt64 := (s.slot * slotSize).toUInt64

/-- The section has no bytes in the file. -/
def isZeroFill (s : DraftSection) : Bool := s.flags = zeroFillFlags

end DraftSection

/-- An encryption command of a draft. -/
structure DraftEncryption where
  /-- The segment of the section that it covers. -/
  segment : Text
  /-- The section that it covers. -/
  sectionName : Text
  /-- The number of the encryption system. -/
  system : UInt32

/-- An image that is being put together. -/
structure Draft where
  /-- The processor. -/
  cpu : CpuType
  /-- The variant of the processor. -/
  sub : CpuSubtype
  /-- The byte order of what is written next. -/
  order : ByteOrder := .little
  /-- The sections in the order of their slots. -/
  sections : List DraftSection
  /-- Further load commands in order. -/
  loads : List Text := []
  /-- The encryption commands in order. -/
  encryptions : List DraftEncryption := []
  /-- The texts that were written, with their addresses. -/
  texts : List (Text × UInt64) := []
deriving Inhabited

namespace Draft

/-- The sections of an empty draft. -/
def emptySections : List DraftSection :=
  [ { segment := "__TEXT", name := "__text", slot := 1 },
    { segment := "__TEXT", name := "__cstring", slot := 2, flags := DraftSection.cstringFlags },
    { segment := "__TEXT", name := "__objc_methname", slot := 3,
      flags := DraftSection.cstringFlags },
    { segment := "__DATA_CONST", name := "__objc_classlist", slot := 4 },
    { segment := "__DATA_CONST", name := "__objc_catlist", slot := 5 },
    { segment := "__DATA_CONST", name := "__objc_protolist", slot := 6 },
    { segment := "__DATA_CONST", name := "__objc_imageinfo", slot := 7 },
    { segment := "__DATA", name := "__objc_selrefs", slot := 8 },
    { segment := "__DATA", name := "__objc_const", slot := 9 },
    { segment := "__DATA", name := "__objc_data", slot := 10 },
    { segment := "__DATA", name := "__bss", slot := 11, flags := DraftSection.zeroFillFlags } ]

/-- The draft has 64-bit addresses. -/
def is64 (d : Draft) : Bool := d.cpu.is64Bit

/-- The number of bytes of a pointer. -/
def pointerSize (d : Draft) : Nat := if d.is64 then 8 else 4

/-- The address at which the image is loaded. -/
def base (d : Draft) : UInt64 := if d.is64 then 0x100000000 else 0x10000

/-- The address of a section. -/
def addressOf (d : Draft) (s : DraftSection) : UInt64 := d.base + s.offset

/-- The section with a name in a segment. -/
def section? (d : Draft) (segment name : Text) : Option DraftSection :=
  d.sections.find? fun s => s.segment = segment && s.name = name

/-- The draft with a section replaced. -/
def setSection (d : Draft) (new : DraftSection) : Draft :=
  { d with sections := d.sections.map fun s =>
      if s.segment = new.segment && s.name = new.name then new else s }

/-- 32-bit numbers as bytes. -/
def words (d : Draft) (values : List UInt32) : Text := values.flatMap d.order.bytes32

/-- Pointers as bytes. -/
def pointers (d : Draft) (values : List UInt64) : Text :=
  values.flatMap fun v => if d.is64 then d.order.bytes64 v else d.order.bytes32 v.toUInt32

end Draft

/-- Steps that change a draft. -/
abbrev Drafting := StateT Draft (Except DraftError)

namespace Drafting

/-- The section with a name in a segment, which must exist. -/
def find (segment name : Text) : Drafting DraftSection := do
  match (← get).section? segment name with
  | some s => return s
  | none => throw .noSuchPlace

/-- Adds bytes to a section and returns their address. -/
def append (segment name : Text) (bytes : Text) : Drafting UInt64 := do
  let s ← find segment name
  let contents := s.contents ++ bytes
  if slotSize < contents.length then throw (.sectionOverflow s.name)
  modify (·.setSection { s with contents })
  return (← get).addressOf s + s.contents.length.toUInt64

/-- Pads a section with zero bytes to a multiple of a number. -/
def align (segment name : Text) (unit : Int) : Drafting Unit := do
  let s ← find segment name
  if unit = 0 then throw .noSuchPlace
  let unit := unit.natAbs
  let padding := (unit - s.contents.length % unit) % unit
  modify (·.setSection { s with contents := s.contents ++ List.replicate padding 0 })

/-- Overwrites bytes of a section from an address on, as far as they exist. -/
def patch (segment name : Text) (addr : UInt64) (bytes : Text) : Drafting Unit := do
  let s ← find segment name
  let place := (addr - (← get).addressOf s).toNat
  if s.contents.length < place then throw .noSuchPlace
  let written := bytes.take (s.contents.length - place)
  let contents :=
    s.contents.take place ++ written ++ s.contents.drop (place + written.length)
  modify (·.setSection { s with contents })

/-- The size of a section. -/
def sizeOf (segment name : Text) : Drafting UInt64 := do return (← find segment name).size

/-- States a size for the section without bytes. -/
def zeroFill (size : UInt64) : Drafting Unit := do
  let s ← find "__DATA" "__bss"
  modify (·.setSection { s with fixedSize := size })

/-- Covers a section with an encryption command. -/
def encrypt (segment name : Text) (system : UInt32) : Drafting Unit :=
  modify fun d => { d with encryptions := d.encryptions ++ [⟨segment, name, system⟩] }

/-- Adds a load command. -/
def addLoad (command : Text) : Drafting Unit :=
  modify fun d => { d with loads := d.loads ++ [command] }

/-- Adds a command with an identifier of 16 bytes. -/
def addUuid (uuid : Text) : Drafting Unit := do
  let head := (← get).words [CommandCode.uuid, 24]
  addLoad (head ++ (uuid ++ List.replicate 16 0).take 16)

/-- The address of a text in the section of texts. Every text is written once. -/
def cstring (text : Text) : Drafting UInt64 := do
  match (← get).texts.find? fun entry => entry.1 = text with
  | some (_, addr) => return addr
  | none =>
    let addr ← append "__TEXT" "__cstring" (text ++ [0])
    modify fun d => { d with texts := (text, addr) :: d.texts }
    return addr

end Drafting

/-- The empty draft of an image, with one instruction as its code. -/
def Draft.new (cpu : CpuType) (sub : CpuSubtype) : Draft :=
  let code : Text := [0xC0, 0x03, 0x5F, 0xD6]
  let sections := emptySections.map fun s =>
    if s.name = Text.ofString "__text" then { s with contents := code } else s
  { cpu, sub, sections }

end ObjcLens
