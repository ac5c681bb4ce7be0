import ObjcLens.Bytes
import ObjcLens.CommandCode
import ObjcLens.Error

/-!
# Load commands

The load commands of an image say where its segments and sections lie and how it is to be
loaded. A command starts with its code and its size. `Load.parse` interprets the commands that
matter here and keeps the others as they are; the sections that a segment command lists are
returned beside it.
-/

namespace ObjcLens

/-- A segment: a range of the file that is mapped to a range of addresses. -/
structure Segment where
  /-- The command that describes it, which tells the width of its addresses. -/
  code : CommandCode
  /-- The size that the command states. -/
  length : UInt32
  /-- The name. -/
  name : Text
  /-- The first address. -/
  addr : UInt64
  /-- The number of addresses. -/
  memSize : UInt64
  /-- The offset in the file. -/
  offset : UInt64
  /-- The number of bytes in the file. -/
  fileSize : UInt64
  /-- The highest protection. -/
  maxProt : Protection
  /-- The protection. -/
  prot : Protection
  /-- The number of sections. -/
  sectionCount : UInt32
  /-- The flags. -/
  flags : UInt32
  /-- The number of sections of the segments before this one. -/
  firstSection : UInt32
deriving DecidableEq, Repr, Inhabited

/-- A section of a segment. -/
structure Section where
  /-- The name. -/
  name : Text
  /-- The name of the segment. -/
  segment : Text
  /-- The first address. -/
  addr : UInt64
  /-- The number of bytes. -/
  size : UInt64
  /-- The offset in the file. -/
  offset : UInt32
  /-- The logarithm of the alignment. -/
  align : UInt32
  /-- The offset of the relocations. -/
  relocOffset : UInt32
  /-- The number of relocations. -/
  relocCount : UInt32
  /-- The type and the attributes. -/
  flags : UInt32
  /-- Three reserved words, the last of them only in 64-bit images. -/
  reserved : UInt32 × UInt32 × UInt32
  /-- The bytes in the file touch an encrypted range. -/
  encrypted : Bool := false
deriving DecidableEq, Repr, Inhabited

/-- A range of the file that is encrypted if the system is not zero. -/
structure EncryptionRange where
  /-- The offset in the file. -/
  offset : UInt32
  /-- The number of bytes. -/
  size : UInt32
  /-- The encryption system, zero for none. -/
  system : UInt32
deriving DecidableEq, Repr, Inhabited

/-- A reference to a library. -/
structure Dylib where
  /-- The path of the library. -/
  name : Text
  /-- The time stamp. -/
  time : UInt32
  /-- The current version. -/
  current : Version
  /-- The oldest compatible version. -/
  compatible : Version
deriving DecidableEq, Repr, Inhabited

/-- The platform that an image was built for. -/
structure BuildVersion where
  /-- The platform. -/
  platform : Platform
  /-- The oldest version of the system. -/
  minOS : Version
  /-- The version of the development kit. -/
  sdk : Version
  /-- The number of tools that are listed. -/
  toolCount : UInt32
deriving DecidableEq, Repr, Inhabited

/-- What a load command says. -/
inductive LoadBody where
  | segment (s : Segment)
  | uuid (bytes : Text)
  | encryption (range : EncryptionRange)
  | codeSignature (offset size : UInt32)
  | chainedFixups (offset size : UInt32)
  | dylib (d : Dylib)
  | rpath (path : Text)
  | buildVersion (b : BuildVersion)
  | sourceVersion (v : SourceVersion)
  /-- A command that is not interpreted. -/
  | other
deriving DecidableEq, Repr

/-- A load command. -/
structure Load where
  /-- The code of the command. -/
  code : CommandCode
  /-- All bytes of the command. -/
  raw : Text
  /-- What the command says. -/
  body : LoadBody
deriving DecidableEq, Repr

/-- A gap of a number of blanks, at least one. -/
def gap (width : Int) : Text := Text.blanks (max width.toNat 1)

namespace Segment

/-- The segment contains an address. -/
def contains (s : Segment) (addr : UInt64) : Bool := s.addr ≤ addr && addr < s.addr + s.memSize

/-- The bytes of the segment in the file contain an offset. -/
def containsOffset (s : Segment) (offset : UInt64) : Bool :=
  s.offset ≤ offset && offset < s.offset + s.fileSize

/-- The segment in one line. -/
def describe (s : Segment) : Text :=
  "sz=" ++ Text.hexPad0x 8 s.fileSize.toNat ++ " off=" ++ Text.hexPad0x 8 s.offset.toNat ++ "-" ++
    Text.hexPad0x 8 (s.offset + s.fileSize).toNat ++ " addr=" ++ Text.hexPad0x 9 s.addr.toNat ++
    "-" ++ Text.hexPad0x 9 (s.addr + s.memSize).toNat ++ " " ++ s.prot.describe ++ "/" ++
    s.maxProt.describe ++ "   " ++ s.name ++ gap (20 - s.name.length) ++
    describeSegmentFlags s.flags

end Segment

namespace Section

/-- The section contains an address. -/
def contains (s : Section) (addr : UInt64) : Bool := s.addr ≤ addr && addr < s.addr + s.size

/-- The section has no bytes in the file and is filled with zeros. -/
def isZeroFill (s : Section) : Bool := ObjcLens.isZeroFill s.flags

/-- The section in one line. -/
def describe (s : Section) : Text :=
  "sz=" ++ Text.hexPad0x 8 s.size.toNat ++ " off=" ++ Text.hexPad0x 8 s.offset.toNat ++ "-" ++
    Text.hexPad0x 8 (s.offset.toUInt64 + s.size).toNat ++ " addr=" ++
    Text.hexPad0x 9 s.addr.toNat ++ "-" ++ Text.hexPad0x 9 (s.addr + s.size).toNat ++ "\t\t" ++
    s.segment ++ "." ++ s.name

end Section

namespace EncryptionRange

/-- The bytes of the range are really encrypted. -/
def isActive (r : EncryptionRange) : Bool := r.system ≠ 0 && 0 < r.size

/-- The range has bytes in common with another one. -/
def overlaps (r : EncryptionRange) (offset size : UInt64) : Bool :=
  offset < r.offset.toUInt64 + r.size.toUInt64 && r.offset.toUInt64 < offset + size

/-- The range in one line. -/
def describe (r : EncryptionRange) : Text :=
  let system : Text :=
    if r.system = 0 then " (not-encrypted yet)" else " CryptID: " ++ Text.hex0x r.system.toNat
  "offset=" ++ Text.hex0x r.offset.toNat ++ " size=" ++ Text.hex0x r.size.toNat ++ system

end EncryptionRange

/-- The library in one line. -/
def Dylib.describe (d : Dylib) : Text := d.name ++ " (" ++ d.current.describe ++ ")"

/-- The platform and the versions in one line. -/
def BuildVersion.describe (b : BuildVersion) : Text :=
  "Platform: " ++ b.platform.name ++ ", MinOS: " ++ b.minOS.describe ++ ", SDK: " ++
    b.sdk.describe

namespace Load

/-- The bytes of a command in one line, the first sixteen if there are more than forty-eight. -/
def describeBytes (bytes : Text) : Text :=
  let shown := if 48 < bytes.length then bytes.take 16 else bytes
  let more : Text :=
    if 48 < bytes.length then " ... (" ++ Text.dec bytes.length ++ " bytes)" else []
  "[" ++ Text.joinWith " " (shown.map fun b => Text.hex b.toNat) ++ more ++ "]"

/-- What a command says, in one line. -/
def describe (load : Load) : Text :=
  match load.body with
  | .segment s => s.describe
  | .uuid bytes => describeUuid bytes
  | .encryption range => range.describe
  | .codeSignature offset size =>
    "offset=" ++ Text.hexPad0x 8 offset.toNat ++ "-" ++ Text.hexPad0x 8 (offset + size).toNat ++
      " size=" ++ Text.padLeft 5 (Text.dec size.toNat)
  | .chainedFixups offset size =>
    "offset=" ++ Text.hexPad0x 9 offset.toNat ++ "  size=" ++ Text.hex0x size.toNat
  | .dylib d => d.describe
  | .rpath path => path
  | .buildVersion b => b.describe
  | .sourceVersion v => v.describe
  | .other => load.code.name ++ ": " ++ describeBytes load.raw

/-- A record of a fixed size at an offset of a command. -/
def record (raw : Text) (offset size : Nat) : Except Shortage Text :=
  let bytes := (raw.drop offset).take size
  if bytes.length = size then .ok bytes
  else if bytes.isEmpty then .error .nothingLeft
  else .error .partlyLeft

/-- A record of a command that lies at a place in the file. -/
def recordAt (place : Int) (what : Text) (raw : Text) (offset size : Nat) :
    Except Error Text :=
  (record raw offset size).mapError fun why =>
    .format place ("failed to read " ++ what) (some why.message)

/-- The section that a record of a segment command describes. -/
def sectionOfRecord (order : ByteOrder) (is64 : Bool) (r : Text) : Section :=
  let word (offset : Nat) : UInt32 := order.word32 (r.drop offset)
  let wide (offset : Nat) : UInt64 := order.word64 (r.drop offset)
  let tail := if is64 then 48 else 40
  { name := untilZero (r.take 16)
    segment := untilZero ((r.drop 16).take 16)
    addr := if is64 then wide 32 else (word 32).toUInt64
    size := if is64 then wide 40 else (word 36).toUInt64
    offset := word tail
    align := word (tail + 4)
    relocOffset := word (tail + 8)
    relocCount := word (tail + 12)
    flags := word (tail + 16)
    reserved := (word (tail + 20), word (tail + 24), if is64 then word (tail + 28) else 0) }

/-- A number of section records, one behind the other from an offset on. -/
def readSections (order : ByteOrder) (is64 : Bool) (place : Int) (raw : Text) :
    Nat → Nat → Except Error (List Section)
  | 0, _ => .ok []
  | count + 1, offset => do
    let size := if is64 then 80 else 68
    let what : Text := if is64 then "Section64" else "Section32"
    let first ← recordAt place what raw offset size
    let rest ← readSections order is64 place raw count (offset + size)
    return sectionOfRecord order is64 first :: rest

/-- A segment command and its sections. -/
def parseSegment (order : ByteOrder) (is64 : Bool) (firstSection : Nat) (place : Int)
    (code : CommandCode) (raw : Text) : Except Error (Segment × List Section) := do
  let size := if is64 then 72 else 56
  let r ← recordAt place code.name raw 0 size
  let word (offset : Nat) : UInt32 := order.word32 (r.drop offset)
  let number (index : Nat) : UInt64 :=
    if is64 then order.word64 (r.drop (24 + 8 * index)) else (word (24 + 4 * index)).toUInt64
  let tail := if is64 then 56 else 40
  let segment : Segment := {
    code
    length := word 4
    name := untilZero ((r.drop 8).take 16)
    addr := number 0
    memSize := number 1
    offset := number 2
    fileSize := number 3
    maxProt := word tail
    prot := word (tail + 4)
    sectionCount := word (tail + 8)
    flags := word (tail + 12)
    firstSection := firstSection.toUInt32 }
  let sections ← readSections order is64 place raw segment.sectionCount.toNat size
  return (segment, sections)

/-- The body of a command that lists no sections. -/
def parseBody (order : ByteOrder) (place : Int) (code : CommandCode) (raw : Text) :
    Except Error LoadBody :=
  let recordOf (size : Nat) : Except Error Text := recordAt place code.name raw 0 size
  let word (offset : Nat) : UInt32 := order.word32 (raw.drop offset)
  if code = CommandCode.uuid then do
    return .uuid ((← recordOf 24).drop 8)
  else if code = CommandCode.encryptionInfo then do
    let _ ← recordOf 20
    return .encryption ⟨word 8, word 12, word 16⟩
  else if code = CommandCode.encryptionInfo64 then do
    let _ ← recordOf 24
    return .encryption ⟨word 8, word 12, word 16⟩
  else if code = CommandCode.codeSignature then do
    let _ ← recordOf 16
    return .codeSignature (word 8) (word 12)
  else if code = CommandCode.chainedFixups then do
    let _ ← recordOf 16
    return .chainedFixups (word 8) (word 12)
  else if code = CommandCode.loadDylib || code = CommandCode.idDylib ||
      code = CommandCode.loadWeakDylib || code = CommandCode.reexportDylib then do
    let _ ← recordOf 24
    let start := word 8
    if raw.length ≤ start.toNat then
      throw (.format place "invalid name in dynamic library command" (some (Text.dec start.toNat)))
    return .dylib ⟨untilZero (raw.drop start.toNat), word 12, word 16, word 20⟩
  else if code = CommandCode.rpath then do
    let _ ← recordOf 12
    let start := word 8
    if raw.length ≤ start.toNat then
      throw (.format place "invalid path in rpath command" (some (Text.dec start.toNat)))
    return .rpath (untilZero (raw.drop start.toNat))
  else if code = CommandCode.buildVersion then do
    let _ ← recordOf 24
    return .buildVersion ⟨word 8, word 12, word 16, word 20⟩
  else if code = CommandCode.sourceVersion then do
    let _ ← recordOf 16
    return .sourceVersion (order.word64 (raw.drop 8))
  else .ok .other

/-- A command at a place in the file, and the sections that it lists. The number tells how many
sections the commands before it list. -/
def parse (order : ByteOrder) (firstSection : Nat) (place : Int) (code : CommandCode)
    (raw : Text) : Except Error (Load × List Section) :=
  if code = CommandCode.segment || code = CommandCode.segment64 then do
    let is64 := code = CommandCode.segment64
    let (segment, sections) ← parseSegment order is64 firstSection place code raw
    return (⟨code, raw, .segment segment⟩, sections)
  else do
    return (⟨code, raw, ← parseBody order place code raw⟩, [])

/-- A number of commands, one behind the other from a place in the file on, and their
sections. -/
def parseAll (order : ByteOrder) : Nat → Nat → Int → Text →
    Except Error (List Load × List Section)
  | 0, _, _, _ => .ok ([], [])
  | count + 1, firstSection, place, block => do
    if block.length < 8 then throw (.format place "command block too small" none)
    let size := (order.word32 (block.drop 4)).toNat
    if size < 8 || block.length < size then
      throw (.format place "invalid command block size" none)
    let (load, sections) ←
      parse order firstSection place (order.word32 block) (block.take size)
    let (loads, others) ←
      parseAll order count (firstSection + sections.length) (place + size) (block.drop size)
    return (load :: loads, sections ++ others)

end Load

end ObjcLens
