import ObjcLens.Directory
import ObjcLens.Image.Basic

/-!
# Slices and archives

A file holds one image, or it is an archive of images for several architectures. Either way it
is a list of slices: `Slice.ofContents` lists them, `Slice.selectOn` chooses one, and `Slice.image`
reads one without looking at any byte outside its range. Which slice is chosen without a request
depends on the processor that the program runs on, the host.
-/

namespace ObjcLens

/-- A range of a file that holds an image, with the architecture that the file states for it. -/
structure Slice where
  /-- The processor. -/
  cpu : CpuType
  /-- The variant of the processor, with its capability bits. -/
  sub : CpuSubtype
  /-- The offset in the file. -/
  offset : UInt32
  /-- The number of bytes. -/
  size : UInt32
  /-- The alignment, as a power of two. -/
  align : UInt32
deriving DecidableEq, Repr, Inhabited

namespace Slice

/-- The magic number of archives, which are always big-endian. -/
def archiveMagic : UInt32 := 0xCAFEBABE

/-- The most slices that an archive can have. -/
def maxCount : Nat := 128

/-- The number of bytes in front of the first record of an archive. -/
def headerSize : Nat := 8

/-- The number of bytes of the record of a slice. -/
def recordSize : Nat := 20

/-- The architecture, without capability bits. -/
def arch (s : Slice) : Arch := ⟨s.cpu, s.sub.base⟩

/-- The slice that a record describes. -/
def ofRecord (r : Text) : Slice :=
  let word (index : Nat) : UInt32 := ByteOrder.big.word32 (r.drop (4 * index))
  ⟨word 0, word 1, word 2, word 3, word 4⟩

/-- The record of a slice, as it is written. -/
def record (s : Slice) : Text :=
  [s.cpu, s.sub, s.offset, s.size, s.align].flatMap ByteOrder.big.bytes32

/-- Refuses a slice that is empty, that reaches beyond the end of the file if that is known, or
whose architecture was seen before. The place is the end of the record. -/
def check (limit : Option Nat) (seen : List Slice) (place : Nat) (s : Slice) :
    Except Error Unit := do
  if s.size = 0 then throw (.format place "empty fat_arch" none)
  if limit.any (· < s.offset.toNat + s.size.toNat) then
    throw (.format place "fat_arch extends past end of file"
      (some (Text.hex0x s.offset.toNat ++ "+" ++ Text.hex0x s.size.toNat)))
  if seen.any fun other => other.cpu = s.cpu && other.sub = s.sub then
    throw (.format place "duplicate architecture"
      (some (s.cpu.name ++ "/" ++ s.sub.name s.cpu)))

/-- A number of slices, from the record at a place on, each checked against those before it. -/
def readRecords (contents : Contents) (limit : Option Nat) :
    Nat → List Slice → Nat → Except Error (List Slice)
  | 0, _, _ => .ok []
  | count + 1, seen, place => do
    let bytes := Image.bytesAt contents place recordSize
    if bytes.length < recordSize then throw (.format place "invalid fat_arch header" none)
    let first := ofRecord bytes
    check limit seen (place + recordSize) first
    let rest ← readRecords contents limit count (first :: seen) (place + recordSize)
    return first :: rest

/-- The slices of an archive. -/
def ofArchive (contents : Contents) (limit : Option Nat) : Except Error (List Slice) := do
  let head := Image.bytesAt contents 0 4
  if head.length < 4 then throw (.notMachO [])
  if ByteOrder.big.word32 head ≠ archiveMagic then
    throw (if (Image.identify head).isSome then .notFat else .notMachO [])
  let count := Image.bytesAt contents 4 4
  if count.length < 4 then throw (.format 4 "invalid fat_header" none)
  let count := (ByteOrder.big.word32 count).toNat
  if count = 0 then throw (.format headerSize "file contains no images" none)
  if maxCount < count then
    throw (.format headerSize "too many fat architectures" (some (Text.dec count)))
  readRecords contents limit count [] headerSize

/-- The one slice of a file that is an image. Its size is that of the file, as far as 32 bits
can tell it. -/
def ofImage (contents : Contents) (limit : Option Nat) : Except Error (List Slice) := do
  let head := Image.bytesAt contents 0 12
  if head.length < 12 then throw (.notMachO [])
  let some (order, _) := Image.identify head | throw (.notMachO [])
  let size := limit.getD contents.size
  return [{
    cpu := order.word32 (head.drop 4)
    sub := order.word32 (head.drop 8)
    offset := 0
    size := (min size 0xFFFFFFFF).toUInt32
    align := 0 }]

/-- The slices of a file. The limit is the size of the file, if it is known. -/
def ofContents (contents : Contents) (limit : Option Nat) : Except Error (List Slice) :=
  match ofArchive contents limit with
  | .error .notFat => ofImage contents limit
  | slices => slices

/-- How well a slice suits a machine: addresses of 64 bits count more than the machine's own
processor. -/
def score (host : CpuType) (s : Slice) : Nat :=
  (if s.cpu.is64Bit then 2 else 0) + (if s.cpu = host then 1 else 0)

/-- The first of the slices with the best score. -/
def best (host : CpuType) (first : Slice) (others : List Slice) : Slice :=
  others.foldl (fun best s => if best.score host < s.score host then s else best) first

/-- The slice to read on a machine with a processor: the first slice of the first architecture asked
for that is present, or, if none is asked for, the one that suits the machine best. -/
def selectOn (host : CpuType) (slices : List Slice) (wanted : List Arch) : Except Error Slice :=
  match slices, wanted with
  | [], _ => .error (.noMatchingArch [])
  | first :: others, [] => .ok (best host first others)
  | slices, wanted =>
    match wanted.findSome? fun arch => slices.find? fun s => arch.covers s.cpu s.sub with
    | some s => .ok s
    | none => .error (.noMatchingArch (wanted.map (·.name)))

/-- The bytes of a slice. -/
def bytes (s : Slice) (contents : Contents) : Contents :=
  contents.extract s.offset.toNat (s.offset.toNat + s.size.toNat)

/-- The image in a slice of a file. -/
def image (s : Slice) (contents : Contents) : Except Error Image :=
  Image.ofSlice (s.bytes contents) (some s.size.toNat)
    { offset := s.offset.toNat, size := s.size.toNat }

end Slice

/-- The image of a file that is to be read on a host. -/
def Image.load (host : CpuType) (contents : Contents) (limit : Option Nat) (wanted : List Arch) :
    Except Error Image := do
  let slice ← Slice.selectOn host (← Slice.ofContents contents limit) wanted
  slice.image contents

/-- An archive, all of whose images have been opened. -/
structure Archive where
  /-- The slices with their images. -/
  members : List (Slice × Image)

namespace Archive

/-- The images of slices, which must be of one type. The number is the index of the first. -/
def openAll (contents : Contents) (type : Option FileType) :
    Nat → List Slice → Except Error (List (Slice × Image))
  | _, [] => .ok []
  | index, s :: rest => do
    let image ← s.image contents
    if type.any (· ≠ image.header.type) then
      throw (.format (Slice.headerSize + index * Slice.recordSize)
        "Mach-O type for architecture does not match first"
        (some (FileType.table.nameOf image.header.type)))
    let others ← openAll contents (type.or (some image.header.type)) (index + 1) rest
    return (s, image) :: others

/-- The archive that a file holds. -/
def ofContents (contents : Contents) : Except Error Archive := do
  let slices ← Slice.ofArchive contents (some contents.size)
  return ⟨← openAll contents none 0 slices⟩

end Archive

namespace Directory

/-- The image of the file at a path that is to be read on a host. -/
def openImage (host : CpuType) (dir : Directory) (path : Text) (wanted : List Arch) :
    Except Error Image := do
  let contents ← dir.read path
  match Image.load host contents (some contents.size) wanted with
  | .error (.notMachO _) => .error (.notMachO path)
  | result => result

/-- The archive at a path. -/
def openArchive (dir : Directory) (path : Text) : Except Error Archive := do
  Archive.ofContents (← dir.read path)

end Directory

end ObjcLens
