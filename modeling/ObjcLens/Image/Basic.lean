import ObjcLens.FileHeader
import ObjcLens.Load
import ObjcLens.Log

/-!
# Images

An image is one architecture slice: its header, its load commands, its sections, and the bytes
behind them. `Image.ofSlice` opens a slice. Every later read goes through `Image.tryRead`, which
refuses what lies outside the slice or touches an encrypted range.
-/

namespace ObjcLens

/-- Where a slice lies and how large it is. -/
structure SliceBounds where
  /-- The offset of the slice in its container. -/
  offset : Int := 0
  /-- The size of the slice; not positive if it is not known. -/
  size : Int := 0
deriving Inhabited

/-- An opened image. -/
structure Image where
  /-- The header. -/
  header : FileHeader
  /-- The byte order. -/
  order : ByteOrder
  /-- The load commands in order. -/
  loads : List Load
  /-- The sections of all segments in order. -/
  sections : List Section
  /-- The size of the slice, which may exceed the bytes that are there. -/
  size : Nat
  /-- The offset of the slice in its container. -/
  offset : Int
  /-- The bytes of the slice. -/
  contents : Array UInt8
deriving Inhabited

namespace Image

/-- The size of a slice whose end is not known. -/
def unboundedSize : Nat := Nat.pow 2 63 - 1

/-- The bytes at an offset, as many as there are. -/
def bytesAt (contents : Array UInt8) (offset : Int) (count : Nat) : Text :=
  if offset < 0 then [] else (contents.extract offset.toNat (offset.toNat + count)).toList

/-- A read that only the end of the slice bounds: the bytes that are there, and an error unless
they are all that was asked for. -/
def readWithin (contents : Array UInt8) (size : Nat) (offset : Int) (count : Nat) :
    Text × Option Error :=
  let fault : Error := .truncated offset count size
  if offset < 0 || (size : Int) < offset || (size : Int) - offset < count then ([], some fault)
  else
    let bytes := bytesAt contents offset count
    (bytes, if bytes.length < count then some fault else none)

/-- The ranges of the file that are really encrypted. -/
def encryptionRanges (loads : List Load) : List EncryptionRange :=
  loads.filterMap fun load => match load.body with
    | .encryption range => if range.isActive then some range else none
    | _ => none

/-- The sections with those marked whose bytes touch an encrypted range. -/
def markEncrypted (loads : List Load) (sections : List Section) : List Section :=
  let ranges := encryptionRanges loads
  sections.map fun s =>
    { s with encrypted :=
        !s.isZeroFill && s.size != 0 && ranges.any (·.overlaps s.offset.toUInt64 s.size) }

/-- The byte order and the magic number that the first four bytes tell. -/
def identify (bytes : Text) : Option (ByteOrder × Magic) :=
  if bytes.length < 4 then none
  else if Magic.isImage (ByteOrder.big.word32 bytes) then
    some (.big, ByteOrder.big.word32 bytes)
  else if Magic.isImage (ByteOrder.little.word32 bytes) then
    some (.little, ByteOrder.little.word32 bytes)
  else none

/-- The header in the first bytes of an image. -/
def headerOfBytes (order : ByteOrder) (magic : Magic) (bytes : Text) : FileHeader :=
  let word (index : Nat) : UInt32 := order.word32 (bytes.drop (4 * index))
  ⟨magic, word 1, word 2, word 3, word 4, word 5, word 6, word 7⟩

/-- The size of a slice: what its bounds say, else what its source tells, else no bound. -/
def sliceSize (bounds : SliceBounds) (told : Option Nat) : Nat :=
  if 0 < bounds.size then bounds.size.toNat else told.getD unboundedSize

/-- The image that a slice holds. The source of the bytes may tell how many there are. -/
def ofSlice (source : Array UInt8) (told : Option Nat) (bounds : SliceBounds) :
    Except Error Image := do
  let size := sliceSize bounds told
  let contents := source.extract 0 size
  let some (order, magic) := identify (bytesAt contents 0 4) | throw (.notMachO [])
  let headerSize := if magic = Magic.image64 then FileHeader.size64 else FileHeader.size32
  let read (offset : Int) (count : Nat) : Except Error Text :=
    match readWithin contents size offset count with
    | (bytes, none) => .ok bytes
    | (_, some error) => .error error
  let header := headerOfBytes order magic (← read 0 headerSize)
  let block ← read headerSize header.commandSize.toNat
  let (loads, sections) ← Load.parseAll order header.commandCount.toNat 0 headerSize block
  return {
    header, order, loads, size, contents
    sections := markEncrypted loads sections
    offset := bounds.offset }

/-- The image has 64-bit addresses. -/
def is64 (image : Image) : Bool := image.header.magic = Magic.image64

/-- The number of bytes of a pointer. -/
def pointerSize (image : Image) : Nat := if image.is64 then 8 else 4

/-- The architecture, without capability bits. -/
def arch (image : Image) : Arch := ⟨image.header.cpu, image.header.sub.base⟩

/-- The segments in order. -/
def segments (image : Image) : List Segment :=
  image.loads.filterMap fun load => match load.body with
    | .segment s => some s
    | _ => none

/-- The first segment with a name. -/
def segment? (image : Image) (name : Text) : Option Segment :=
  image.segments.find? fun s => s.name = name

/-- The first section with a name in the segment with a name. -/
def section? (image : Image) (segment name : Text) : Option Section :=
  image.sections.find? fun s => s.segment = segment && s.name = name

/-- The first segment that contains an address. -/
def segmentAt? (image : Image) (addr : UInt64) : Option Segment :=
  image.segments.find? (·.contains addr)

/-- The first section that contains an address. -/
def sectionAt? (image : Image) (addr : UInt64) : Option Section :=
  image.sections.find? (·.contains addr)

/-- The address at which the image wants to be loaded: that of its text segment. -/
def baseAddress (image : Image) : UInt64 :=
  ((image.segments.find? fun s => Arch.equalsIgnoringCase s.name "__TEXT").map (·.addr)).getD 0

/-- The identifier of the image. -/
def uuid? (image : Image) : Option Text :=
  image.loads.findSome? fun load => match load.body with
    | .uuid bytes => some (describeUuid bytes)
    | _ => none

/-- The identity of a library. -/
def dylibId? (image : Image) : Option Dylib :=
  image.loads.findSome? fun load => match load.body with
    | .dylib d => if load.code = CommandCode.idDylib then some d else none
    | _ => none

/-- The version of the sources. -/
def sourceVersion? (image : Image) : Option SourceVersion :=
  image.loads.findSome? fun load => match load.body with
    | .sourceVersion v => some v
    | _ => none

/-- The platform that the image was built for. -/
def buildVersion? (image : Image) : Option BuildVersion :=
  image.loads.findSome? fun load => match load.body with
    | .buildVersion b => some b
    | _ => none

/-- The command that tells the place of the code signature. -/
def codeSignature? (image : Image) : Option Load :=
  image.loads.find? fun load => match load.body with
    | .codeSignature .. => true
    | _ => false

/-- The first encryption range, active or not. -/
def encryption? (image : Image) : Option EncryptionRange :=
  image.loads.findSome? fun load => match load.body with
    | .encryption range => some range
    | _ => none

/-- Some section is encrypted. -/
def isEncrypted (image : Image) : Bool := image.sections.any (·.encrypted)

/-- What is logged about encrypted sections when an image is opened: each of them for each range
that it touches. -/
def encryptionLog (image : Image) : List LogEntry :=
  (encryptionRanges image.loads).flatMap fun range =>
    let touched := image.sections.filter fun s =>
      !s.isZeroFill && s.size != 0 && range.overlaps s.offset.toUInt64 s.size
    touched.map fun s => ⟨.debug, "section is encrypted",
      [("section", s.segment ++ "." ++ s.name), ("cryptid", Text.dec range.system.toNat)]⟩

/-- The paths of the libraries that the image is linked with. -/
def libraries (image : Image) : List Text :=
  image.loads.filterMap fun load => match load.body with
    | .dylib d => if load.code = CommandCode.idDylib then none else some d.name
    | _ => none

/-- The directories in which libraries are looked for. -/
def rpaths (image : Image) : List Text :=
  image.loads.filterMap fun load => match load.body with
    | .rpath path => some path
    | _ => none

/-- The offset and the size of the chained fixups. -/
def fixupsRange? (image : Image) : Option (UInt32 × UInt32) :=
  image.loads.findSome? fun load => match load.body with
    | .chainedFixups offset size => some (offset, size)
    | _ => none

/-- The image has chained fixups. -/
def hasFixups (image : Image) : Bool := image.fixupsRange?.isSome

/-- A section below the command that lists it. -/
def describeSection (s : Section) : Text :=
  let mark : Text := if s.encrypted then " (encrypted)" else []
  "\t" ++ s.describe ++ mark ++ "\n"

/-- A load command with its number, and the sections of a segment below it. -/
def describeLoad (image : Image) (index : Nat) (load : Load) : Text :=
  let number := Text.zeroPad 3 (Text.dec index) ++ ": " ++ load.code.name
  match load.body with
  | .segment s =>
    let listed := (image.sections.drop s.firstSection.toNat).take s.sectionCount.toNat
    number ++ " " ++ s.describe ++ "\n" ++ listed.flatMap describeSection
  | _ => number ++ gap (28 - load.code.name.length) ++ load.describe ++ "\n"

/-- The header and the load commands as text. -/
def describe (image : Image) : Text :=
  image.header.describe ++
    image.loads.zipIdx.flatMap fun (load, index) => image.describeLoad index load

end Image

end ObjcLens
