import ObjcLens.Fixups.Basic
import ObjcLens.Fixups.Error
import ObjcLens.Quicksort

/-!
# Pointer chains

The payload of the chained fixups lists the imports, and for every segment of the image the
places at which chains start. `ChainedFixups.parse` reads the payload and follows the chains
through the image. The image is a function that reads bytes at an offset from its base, or
gives a reason why it cannot.

* `ChainedFixups.PointerWord.ofRaw`: the fields of one word of a chain.
* `ChainedFixups.decodePointer`: one word of a chain, with the distance to the next one.
* `ChainedFixups.followChain`: the pointers of one chain.
* `ChainedFixups.parse`: everything.
* `ChainedFixups.at?`, `ChainedFixups.all`: looking up and listing the pointers.
-/

namespace ObjcLens

/-- Reads a number of bytes at an offset from the base of an image, or tells why it cannot. -/
abbrev ImageReader := UInt64 → Nat → Except Text Text

/-- The reader of an image whose bytes lie one behind the other from its base on. -/
def ImageReader.ofContents (contents : Array UInt8) : ImageReader := fun offset count =>
  if signed64 offset < 0 then .error "bytes.Reader.ReadAt: negative offset"
  else if contents.size < offset.toNat + count then .error "EOF"
  else .ok (contents.extract offset.toNat (offset.toNat + count)).toList

/-- Where the chains of one segment start. -/
structure SegmentStarts where
  /-- The size of the record, which may include further chain starts behind those of the pages. -/
  recordSize : UInt32 := 0
  /-- The size of a page. -/
  pageSize : UInt16 := 0
  /-- The layout of the pointers. -/
  format : PointerFormat := 0
  /-- The offset of the segment from the base of the image. -/
  segmentOffset : UInt64 := 0
  /-- In 32-bit images, larger values are no pointers. -/
  maxPointer : UInt32 := 0
  /-- The number of pages. -/
  pageCount : UInt16 := 0
  /-- The chain start of every page, and further starts of pages with several chains; absent for
  a segment without chains. -/
  starts : Option (List UInt16) := none
deriving DecidableEq, Repr, Inhabited

/-- The header of the payload. -/
structure FixupsHeader where
  /-- The version of the format. -/
  version : UInt32
  /-- The offset of the chain starts in the payload. -/
  startsOffset : UInt32
  /-- The offset of the imports in the payload. -/
  importsOffset : UInt32
  /-- The offset of the symbol names in the payload. -/
  symbolsOffset : UInt32
  /-- The number of imports. -/
  importsCount : UInt32
  /-- The layout of the imports. -/
  importsFormat : UInt32
  /-- Tells how the symbol names are compressed, zero if they are not. -/
  symbolsFormat : UInt32
deriving DecidableEq, Repr

/-- The chained fixups of an image. -/
structure ChainedFixups where
  /-- The imported symbols. -/
  imports : List Import
  /-- The chain starts of every segment. -/
  segments : List SegmentStarts
  /-- The pointers of every segment, in the order of the chains. -/
  fixups : List (List Fixup)

namespace ChainedFixups

/-- A record of a fixed size at an offset of the payload. -/
def record (payload : Text) (offset size : Nat) : Except Shortage Text :=
  let bytes := (payload.drop offset).take size
  if bytes.length = size then .ok bytes
  else if bytes.isEmpty then .error .nothingLeft
  else .error .partlyLeft

/-- A record of the payload, its absence reported as a fault. -/
def recordOr (fault : Shortage → FixupError) (payload : Text) (offset size : Nat) :
    Except FixupError Text := (record payload offset size).mapError fault

/-- The header of the payload. -/
def readHeader (order : ByteOrder) (payload : Text) : Except FixupError FixupsHeader := do
  let bytes ← recordOr .header payload 0 28
  let word (index : Nat) : UInt32 := order.word32 (bytes.drop (4 * index))
  return ⟨word 0, word 1, word 2, word 3, word 4, word 5, word 6⟩

/-- The size of a segment record without its page starts. -/
def segmentRecordSize : Nat := 22

/-- The chain starts of a segment, from the record at an offset of the payload. -/
def readSegment (order : ByteOrder) (payload : Text) (index offset : Nat) :
    Except FixupError SegmentStarts := do
  let bytes ← recordOr (.segment index) payload offset segmentRecordSize
  let recordSize := order.word32 bytes
  let pageCount := order.word16 (bytes.drop 20)
  -- a record larger than its pages need lists the starts of pages with several chains behind them
  let count := max pageCount.toNat ((recordSize.toNat - segmentRecordSize) / 2)
  let rest := payload.drop (offset + segmentRecordSize)
  if rest.length < 2 * count then throw (.pageStarts index)
  return {
    recordSize
    pageSize := order.word16 (bytes.drop 4)
    format := order.word16 (bytes.drop 6)
    segmentOffset := order.word64 (bytes.drop 8)
    maxPointer := order.word32 (bytes.drop 16)
    pageCount
    starts := some ((List.range count).map fun i => order.word16 (rest.drop (2 * i))) }

/-- The chain starts of all segments. The table at the start holds for every segment the offset
of its record, zero for a segment without chains. -/
def readSegments (order : ByteOrder) (payload : Text) (header : FixupsHeader) :
    Except FixupError (List SegmentStarts) := do
  let base := header.startsOffset.toNat
  let count := order.word32 (← recordOr .segmentCount payload base 4)
  let table := payload.drop (base + 4)
  if table.length < 4 * count.toNat then throw (.tooManySegments count)
  (List.range count.toNat).mapM fun index => do
    let offset := order.word32 (table.drop (4 * index))
    if offset = 0 then return {} else readSegment order payload index (base + offset.toNat)

/-- A symbol name of the payload. -/
def readSymbol (payload : Text) (offset : UInt64) : Except FixupError Text :=
  if payload.length ≤ offset.toNat then .error (.symbolRange offset)
  else match Text.cut? 0 (payload.drop offset.toNat) with
    | none => .error (.symbolEnd offset)
    | some (name, _) => .ok name

/-- An import whose symbol name is given by its offset. -/
structure RawImport where
  /-- The library that the symbol comes from. -/
  library : Int
  /-- The symbol may be missing. -/
  weak : Bool
  /-- The offset of the name among the symbol names. -/
  nameOffset : UInt64
  /-- A number to be added to the address of the symbol. -/
  addend : Int

/-- The import at an offset of the payload, and the offset behind it. There are three layouts:
one word, one word and an addend, and one double word and a wide addend. -/
def readImport (order : ByteOrder) (payload : Text) (format : UInt32) (index offset : Nat) :
    Except FixupError (RawImport × Nat) :=
  if format = 1 || format = 2 then do
    let word := (order.word32 (← recordOr (.importEntry index) payload offset 4)).toUInt64
    let entry (addend : Int) : RawImport :=
      ⟨(bitField word 0 8).toUInt8.toInt8.toInt, bitField word 8 1 ≠ 0, bitField word 9 23, addend⟩
    if format = 1 then return (entry 0, offset + 4)
    else
      let addend := order.word32 (← recordOr (.importAddend index) payload (offset + 4) 4)
      return (entry (signed32 addend), offset + 8)
  else if format = 3 then do
    let bytes ← recordOr (.importEntry index) payload offset 16
    let word := order.word64 bytes
    return (⟨(bitField word 0 16).toUInt16.toInt16.toInt, bitField word 16 1 ≠ 0,
      bitField word 32 32, signed64 (order.word64 (bytes.drop 8))⟩, offset + 16)
  else .error (.importsFormat format)

/-- A number of imports, one behind the other, from an index and an offset on. -/
def readRawImports (order : ByteOrder) (payload : Text) (format : UInt32) :
    Nat → Nat → Nat → Except FixupError (List RawImport)
  | 0, _, _ => .ok []
  | count + 1, index, offset => do
    let (entry, offset) ← readImport order payload format index offset
    let entries ← readRawImports order payload format count (index + 1) offset
    return entry :: entries

/-- The imports of the payload. -/
def readImports (order : ByteOrder) (payload : Text) (header : FixupsHeader) :
    Except FixupError (List Import) := do
  if header.symbolsFormat ≠ 0 then throw (.symbolsFormat header.symbolsFormat)
  let entries ← readRawImports order payload header.importsFormat header.importsCount.toNat 0
    header.importsOffset.toNat
  entries.mapM fun entry => do
    let name ← readSymbol payload (header.symbolsOffset.toUInt64 + entry.nameOffset)
    return ⟨name, entry.library, entry.weak, entry.addend⟩

/-- A bound pointer. Its addend is added to that of the import. -/
def bindPointer (imports : List Import) (format : PointerFormat) (location raw : UInt64)
    (ordinal : UInt32) (addend : Int) (auth : Bool) : Except FixupError Fixup :=
  match imports[ordinal.toNat]? with
  | none => .error (.ordinal ordinal location imports.length)
  | some target => .ok (.bind {
      location, raw, format, ordinal, auth
      addend := signed64 (wrap64 (addend + target.addend))
      symbol := target.name })

/-- A number of a given width in bits, read as a signed one. -/
def signExtend (value : UInt64) (width : Nat) : Int := Int.bmod value.toNat (Nat.pow 2 width)

/-- What a word of a chain holds: a pointer to a place inside the image, or the index of an import
and a number to be added to its addend. -/
inductive PointerWord where
  | rebase (r : Rebase)
  | bind (ordinal : UInt32) (addend : Int) (auth : Bool)
deriving DecidableEq, Repr

/-- The fields of a word of a chain, with the distance to the next one in strides of the layout;
the distance zero ends the chain. -/
def PointerWord.ofRaw (format : PointerFormat) (location raw : UInt64) :
    Except FixupError (PointerWord × UInt64) :=
  let bits := bitField raw
  if format = 4 then
    .ok (.rebase { location, raw, format, target := bits 0 30 }, bits 30 2)
  else if format = 5 then
    .ok (.rebase { location, raw, format, target := bits 0 26, isAddress := true }, bits 26 6)
  else if format = 3 then
    if bits 31 1 ≠ 0 then .ok (.bind (bits 0 20).toUInt32 (bits 20 6).toNat false, bits 26 5)
    else .ok (.rebase { location, raw, format, target := bits 0 26, isAddress := true }, bits 26 5)
  else if format = 2 || format = 6 then
    if bits 63 1 ≠ 0 then .ok (.bind (bits 0 24).toUInt32 (bits 24 8).toNat false, bits 51 12)
    else .ok (.rebase {
      location, raw, format
      target := bits 0 36
      high8 := bits 36 8
      isAddress := format.isAddress }, bits 51 12)
  else if format = 8 || format = 11 then
    .ok (.rebase {
      location, raw, format
      target := bits 0 30
      auth := bits 63 1 ≠ 0
      diversity := bits 32 16
      key := bits 49 2 }, bits 51 12)
  else if format.isAuthenticated then
    let next := bits 51 11
    -- only this format has room for more than sixteen bits
    let ordinal := (bits 0 (if format = 12 then 24 else 16)).toUInt32
    match decide (bits 62 1 ≠ 0), decide (bits 63 1 ≠ 0) with
    | true, true => .ok (.bind ordinal 0 true, next)
    | true, false => .ok (.bind ordinal (signExtend (bits 32 19) 19) false, next)
    | false, true => .ok (.rebase {
        location, raw, format
        target := bits 0 32
        auth := true
        diversity := bits 32 16
        key := bits 49 2 }, next)
    | false, false => .ok (.rebase {
        location, raw, format
        target := bits 0 43
        high8 := bits 43 8
        isAddress := format.isAddress }, next)
  else .error (.pointerFormat format)

/-- One word of a chain, its import looked up, with the distance to the next one. -/
def decodePointer (imports : List Import) (format : PointerFormat) (location raw : UInt64) :
    Except FixupError (Fixup × UInt64) := do
  match ← PointerWord.ofRaw format location raw with
  | (.rebase r, next) => return (.rebase r, next)
  | (.bind ordinal addend auth, next) =>
    return (← bindPointer imports format location raw ordinal addend auth, next)

/-- The word at a location of the image, in the width of the layout. -/
def readWord (order : ByteOrder) (image : ImageReader) (format : PointerFormat)
    (location : UInt64) : Except FixupError UInt64 :=
  let size := if format.is32 then 4 else 8
  match image location size with
  | .error reason => .error (.pointer location reason)
  | .ok bytes => .ok (order.toNat bytes).toUInt64

/-- The pointers of a chain from a location on. The first number bounds the links; a chain that
needs more is a fault. -/
def followLinks (order : ByteOrder) (image : ImageReader) (imports : List Import)
    (format : PointerFormat) (endless : FixupError) : Nat → UInt64 →
    Except FixupError (List Fixup)
  | 0, _ => .error endless
  | links + 1, location => do
    let raw ← readWord order image format location
    let (fixup, next) ← decodePointer imports format location raw
    if next = 0 then return [fixup]
    else
      let rest ← followLinks order image imports format endless links
        (location + next * format.stride)
      return fixup :: rest

/-- The pointers of the chain that starts at an offset of a page. It has at most two links more
than the page has bytes. -/
def followChain (order : ByteOrder) (image : ImageReader) (imports : List Import)
    (segment : SegmentStarts) (segmentIndex page : Nat) (start : UInt16) :
    Except FixupError (List Fixup) :=
  followLinks order image imports segment.format (.endless segmentIndex page)
    (segment.pageSize.toNat + 2)
    (segment.segmentOffset + page.toUInt64 * segment.pageSize.toUInt64 + start.toUInt64)

/-- The pointers of a page with several chains, from an index of the starts on. The entry with
the upper bit set is the last one. -/
def followChains (order : ByteOrder) (image : ImageReader) (imports : List Import)
    (segment : SegmentStarts) (segmentIndex page : Nat) :
    Nat → List UInt16 → Except FixupError (List Fixup)
  | index, [] => .error (.startIndex index segmentIndex)
  | index, start :: rest => do
    let first ← followChain order image imports segment segmentIndex page (start &&& 0x7FFF)
    if start &&& 0x8000 ≠ 0 then return first
    else
      let others ← followChains order image imports segment segmentIndex page (index + 1) rest
      return first ++ others

/-- The pointers of a page. -/
def followPage (order : ByteOrder) (image : ImageReader) (imports : List Import)
    (segment : SegmentStarts) (segmentIndex : Nat) (starts : List UInt16) (page : Nat) :
    Except FixupError (List Fixup) :=
  let start := starts.getD page 0xFFFF
  if start = 0xFFFF then .ok []
  else if start &&& 0x8000 ≠ 0 && segment.format.is32 then
    let index := (start &&& 0x7FFF).toNat
    followChains order image imports segment segmentIndex page index (starts.drop index)
  else followChain order image imports segment segmentIndex page start

/-- The pointers of a segment, page after page. -/
def followSegment (order : ByteOrder) (image : ImageReader) (imports : List Import)
    (segmentIndex : Nat) (segment : SegmentStarts) : Except FixupError (List Fixup) :=
  match segment.starts with
  | none => .ok []
  | some starts => do
    let pages ← (List.range segment.pageCount.toNat).mapM
      (followPage order image imports segment segmentIndex starts)
    return pages.flatten

/-- The chained fixups that a payload describes, followed through an image. -/
def parse (order : ByteOrder) (payload : Text) (image : ImageReader) :
    Except FixupError ChainedFixups := do
  let header ← readHeader order payload
  let segments ← readSegments order payload header
  let imports ← readImports order payload header
  let fixups ← segments.zipIdx.mapM fun (segment, index) =>
    followSegment order image imports index segment
  return ⟨imports, segments, fixups⟩

/-- The pointer at an offset from the base of the image. Where chains cross, the pointer that
was reached last counts. -/
def at? (chained : ChainedFixups) (offset : UInt64) : Option Fixup :=
  chained.fixups.flatten.reverse.find? fun fixup => fixup.location = offset

/-- The bound pointer at an offset from the base of the image. -/
def bindAt? (chained : ChainedFixups) (offset : UInt64) : Option Bind :=
  match chained.at? offset with
  | some (.bind b) => some b
  | _ => none

/-- All pointers ordered by their location. -/
def all (chained : ChainedFixups) : List Fixup :=
  Quicksort.sort (fun a b => a.location ≤ b.location) chained.fixups.flatten

end ChainedFixups

end ObjcLens
