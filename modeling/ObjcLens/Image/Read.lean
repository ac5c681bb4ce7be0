import ObjcLens.Attempt
import ObjcLens.Image.Basic
import ObjcLens.Fixups.Chain

/-!
# Reading an image

Reads by file offset and by address. All of them go through `Image.tryRead`, so none returns a
byte from outside the slice or from an encrypted range; `Image.segmentData` alone shows the raw
bytes of a segment.

* `Image.readAt`: bytes at a file offset.
* `Image.readAddr`: bytes at an address, inside one section or segment.
* `Image.cstring`: a text that ends with a zero byte.
* `Image.pointerAt`: a pointer, resolved through the chained fixups.
* `Image.sectionData`, `Image.segmentData`: all bytes of a section or segment. They are read into a
  buffer of the size that the header claims, which may be too large to be made.
-/

namespace ObjcLens

namespace Image

/-- A read at a file offset touches an encrypted range. -/
def touchesEncrypted (image : Image) (offset size : UInt64) : Bool :=
  (encryptionRanges image.loads).any (·.overlaps offset size)

/-- The error of a read at an encrypted file offset. It names the section, or else the segment,
that the offset belongs to. -/
def encryptedAt (image : Image) (offset : UInt64) : Error :=
  let holds (s : Section) : Bool :=
    s.offset.toUInt64 ≤ offset && offset < s.offset.toUInt64 + s.size && !s.isZeroFill
  match image.sections.find? holds with
  | some s => .encrypted s.segment s.name (s.addr + offset - s.offset.toUInt64)
  | none => match image.segments.find? (·.containsOffset offset) with
    | some s => .encrypted s.name [] (s.addr + offset - s.offset)
    | none => .encrypted [] [] offset

/-- A read at a file offset: the bytes that were read, and an error unless they are all that was
asked for. -/
def tryRead (image : Image) (offset : Int) (count : Nat) : Text × Option Error :=
  if offset < 0 || (image.size : Int) < offset || (image.size : Int) - offset < count then
    ([], some (.truncated offset count image.size))
  else if image.touchesEncrypted (wrap64 offset) count.toUInt64 then
    ([], some (image.encryptedAt (wrap64 offset)))
  else readWithin image.contents image.size offset count

/-- The bytes at a file offset. -/
def readAt (image : Image) (offset : Int) (count : Nat) : Except Error Text :=
  match image.tryRead offset count with
  | (bytes, none) => .ok bytes
  | (_, some error) => .error error

/-- The 32-bit number at a file offset. -/
def word32At (image : Image) (offset : Int) : Except Error UInt32 := do
  return image.order.word32 (← image.readAt offset 4)

/-- The 64-bit number at a file offset. -/
def word64At (image : Image) (offset : Int) : Except Error UInt64 := do
  return image.order.word64 (← image.readAt offset 8)

/-- The pointer-sized number at a file offset. -/
def wordAt (image : Image) (offset : Int) : Except Error UInt64 :=
  if image.is64 then image.word64At offset
  else do return (← image.word32At offset).toUInt64

/-- The file offset of an address. -/
def offsetOf (image : Image) (addr : UInt64) : Except Error UInt64 :=
  match image.segmentAt? addr with
  | some s => .ok (addr - s.addr + s.offset)
  | none => .error (.unmappedAddress addr)

/-- The address of a file offset. -/
def addressOf (image : Image) (offset : UInt64) : Except Error UInt64 :=
  match image.segments.find? (·.containsOffset offset) with
  | some s => .ok (offset - s.offset + s.addr)
  | none => .error (.unmappedOffset offset)

/-- The file offset of an address in a section. -/
def sectionOffset (s : Section) (addr : UInt64) : Int :=
  signed64 (s.offset.toUInt64 + (addr - s.addr))

/-- Bytes at an address in a section. -/
def readSection (image : Image) (s : Section) (addr : UInt64) (count : Nat) :
    Except Error Text :=
  let stop := addr + count.toUInt64
  if s.encrypted then .error (.encrypted s.segment s.name addr)
  else if s.addr + s.size < stop || stop < addr then .error (.dangling addr [] [])
  else if s.isZeroFill then .ok (List.replicate count 0)
  else image.readAt (sectionOffset s addr) count

/-- Bytes at an address in a segment. Those behind the end of its bytes in the file are zero. -/
def readSegment (image : Image) (s : Segment) (addr : UInt64) (count : Nat) :
    Except Error Text := do
  let stop := addr + count.toUInt64
  if s.prot = 0 || s.addr + s.memSize < stop || stop < addr then throw (.dangling addr [] [])
  let inside := addr - s.addr
  if s.fileSize ≤ inside then return List.replicate count 0
  let stored :=
    if s.fileSize < inside + count.toUInt64 then s.fileSize - inside else count.toUInt64
  if image.touchesEncrypted (s.offset + inside) stored then throw (.encrypted s.name [] addr)
  let bytes ← image.readAt (signed64 (s.offset + inside)) stored.toNat
  return bytes ++ List.replicate (count - stored.toNat) 0

/-- Bytes at an address. The read must stay inside the section that contains the address or, if
there is none, inside the segment. -/
def readAddr (image : Image) (addr : UInt64) (count : Nat) : Except Error Text :=
  match image.sectionAt? addr with
  | some s => image.readSection s addr count
  | none => match image.segmentAt? addr with
    | some s => image.readSegment s addr count
    | none => .error (.dangling addr [] [])

/-- Texts are read in pieces of this size. -/
def chunkSize : Nat := 64

/-- The text at an address of a section, read in pieces. The fuel bounds their number. -/
def cstringFrom (image : Image) (s : Section) (start : UInt64) : Nat → UInt64 →
    Except Error Text
  | 0, _ => .error (.dangling start [] "cstring")
  | fuel + 1, addr =>
    if addr < s.addr + s.size then do
      let count := min chunkSize (s.addr + s.size - addr).toNat
      let piece ← image.readAt (sectionOffset s addr) count
      match Text.cut? 0 piece with
      | some (text, _) => return text
      | none => return piece ++ (← cstringFrom image s start fuel (addr + count.toUInt64))
    else .error (.dangling start [] "cstring")

/-- The text at an address, up to a zero byte that must lie in the same section. -/
def cstring (image : Image) (addr : UInt64) : Except Error Text :=
  match image.sectionAt? addr with
  | none => .error (.dangling addr [] [])
  | some s =>
    if s.encrypted then .error (.encrypted s.segment s.name addr)
    else if s.isZeroFill then .ok []
    else image.cstringFrom s addr ((s.addr + s.size - addr).toNat / chunkSize + 1) addr

/-- Bytes at an offset from the base address, as the chained fixups see them. -/
def reader (image : Image) : ImageReader := fun offset count =>
  let bytes : Except Error Text := do
    let place ← image.offsetOf (image.baseAddress + offset)
    image.readAt (signed64 place) count
  bytes.mapError Error.message

/-- The chained fixups of an image. -/
def chainedFixups (image : Image) : Except Error ChainedFixups :=
  match image.fixupsRange? with
  | none => .error .noFixups
  | some (offset, size) => do
    let payload ← (image.readAt offset.toNat size.toNat).mapError fun cause =>
      .within ("failed to read DyldChainedFixups data at offset=" ++ Text.hex0x offset.toNat ++
        "; ") cause
    (ChainedFixups.parse image.order payload image.reader).mapError .fixups

/-- A resolved pointer: an address, or the name of an imported symbol. -/
structure Pointer where
  /-- The address, zero for an imported symbol. -/
  addr : UInt64
  /-- The imported symbol, empty for an address. -/
  symbol : Text
deriving DecidableEq, Repr, Inhabited

/-- A pointer word at an address, resolved through chained fixups. -/
def resolve (image : Image) (chained : ChainedFixups) (addr raw : UInt64) : Pointer :=
  match chained.at? (addr - image.baseAddress) with
  | some (.rebase r) => ⟨r.address image.baseAddress, []⟩
  | some (.bind b) => ⟨0, b.symbol⟩
  | none => ⟨raw, []⟩

/-- The pointer at an address. It is resolved through the chained fixups if they are there and
can be read. -/
def pointerWith (image : Image) (chained : Except Error ChainedFixups) (addr : UInt64) :
    Except Error Pointer := do
  let raw := (image.order.toNat (← image.readAddr addr image.pointerSize)).toUInt64
  match chained with
  | .ok chained => return image.resolve chained addr raw
  | .error _ => return ⟨raw, []⟩

/-- The pointer at an address. -/
def pointerAt (image : Image) (addr : UInt64) : Except Error Pointer :=
  image.pointerWith image.chainedFixups addr

/-- The most bytes that can be addressed. -/
def maxBuffer : UInt64 := 0x1000000000000

/-- The bytes of a section: those that were read, and an error unless they are all of them. The
buffer is made before it is known how many bytes there are. -/
def sectionData (image : Image) (s : Section) : Attempt (Text × Option Error) :=
  if s.encrypted then .returned ([], some (.encrypted s.segment s.name s.addr))
  else if maxBuffer < s.size then .crashed
  else if s.isZeroFill then .returned (List.replicate s.size.toNat 0, none)
  else
    let bytes := bytesAt image.contents s.offset.toNat s.size.toNat
    .returned (bytes, if bytes.length < s.size.toNat then
        some (.truncated s.offset.toNat s.size.toNat image.size)
      else none)

/-- The bytes of a segment in the file, encrypted or not: those that were read, and an error
unless they are all of them. -/
def segmentData (image : Image) (s : Segment) : Attempt (Text × Option Error) :=
  if maxBuffer < s.fileSize then .crashed
  else
    let bytes := bytesAt image.contents (signed64 s.offset) s.fileSize.toNat
    .returned (bytes,
      if bytes.length < s.fileSize.toNat then some (.endOfData .nothingLeft) else none)

end Image

end ObjcLens
