import ObjcLens.Draft.Record
import ObjcLens.Slice

/-!
# Drafts as files

`Draft.encode` writes a draft as an image, and `Archive.encode` puts images into an archive.
-/

namespace ObjcLens

namespace Draft

/-- A segment of a draft: its slots from the first to the last, and its protection. -/
structure Span where
  /-- The name. -/
  name : Text
  /-- The first slot. -/
  first : Nat
  /-- The last slot. -/
  last : Nat
  /-- The number of slots that have bytes in the file. -/
  stored : Nat
  /-- The protection. -/
  protection : UInt32

/-- The segments of every draft. The last slot has no bytes in the file. -/
def spans : List Span :=
  [ ⟨"__TEXT", 0, 3, 4, 5⟩, ⟨"__DATA_CONST", 4, 7, 4, 3⟩, ⟨"__DATA", 8, 11, 3, 3⟩ ]

/-- The number of slots that have bytes in the file. -/
def storedSlots : Nat := 11

/-- A name in a field of 16 bytes. -/
def nameField (name : Text) : Text := (name ++ List.replicate 16 0).take 16

/-- A number that is as wide as an address. -/
def wide (d : Draft) (value : UInt64) : Text := d.pointers [value]

/-- The record of a section in a segment command. -/
def sectionRecord (d : Draft) (s : DraftSection) : Text :=
  let offset := if s.isZeroFill then 0 else s.offset.toUInt32
  let tail : List UInt32 := if d.is64 then [0] else []
  nameField s.name ++ nameField s.segment ++ d.wide (d.addressOf s) ++ d.wide s.size ++
    d.words ([offset, 3, 0, 0, s.flags, 0, 0] ++ tail)

/-- A segment command. -/
def segmentCommand (d : Draft) (name : Text) (addr size offset fileSize : UInt64)
    (protection : UInt32) (sections : List DraftSection) : Text :=
  let count := sections.length
  let code := if d.is64 then CommandCode.segment64 else CommandCode.segment
  let length := if d.is64 then 72 + 80 * count else 56 + 68 * count
  d.words [code, length.toUInt32] ++ nameField name ++
    [addr, size, offset, fileSize].flatMap d.wide ++
    d.words [protection, protection, count.toUInt32, 0] ++ sections.flatMap d.sectionRecord

/-- The command of a segment with its sections, as far as they have a size. -/
def spanCommand (d : Draft) (span : Span) : Text :=
  let sections := d.sections.filter fun s => s.segment = span.name && s.size ≠ 0
  let start := (span.first * slotSize).toUInt64
  let size := ((span.last + 1 - span.first) * slotSize).toUInt64
  d.segmentCommand span.name (d.base + start) size start (span.stored * slotSize).toUInt64
    span.protection sections

/-- The command of an encryption range, whose section must exist. -/
def encryptionCommand (d : Draft) (e : DraftEncryption) : Except DraftError Text :=
  match d.section? e.segment e.sectionName with
  | none => .error .noSuchPlace
  | some s =>
    let range := [s.offset.toUInt32, s.size.toUInt32, e.system]
    .ok (d.words (if d.is64 then CommandCode.encryptionInfo64 :: 24 :: range ++ [0]
      else CommandCode.encryptionInfo :: 20 :: range))

/-- The load commands of a draft. -/
def commands (d : Draft) : Except DraftError (List Text) := do
  let encryptions ← d.encryptions.mapM d.encryptionCommand
  return d.segmentCommand "__PAGEZERO" 0 d.base 0 0 0 [] :: spans.map d.spanCommand ++
    encryptions ++ d.loads

/-- The header of a draft with its load commands. -/
def head (d : Draft) (commands : List Text) : Text :=
  let header : FileHeader := {
    magic := if d.is64 then Magic.image64 else Magic.image32
    cpu := d.cpu
    sub := d.sub
    type := FileType.execute
    commandCount := commands.length.toUInt32
    commandSize := commands.flatten.length.toUInt32
    flags := 0
    reserved := 0 }
  header.encode d.order ++ commands.flatten

/-- A file with some of its bytes replaced from an offset on, as far as the file reaches. -/
def overwrite (file : Text) (offset : Nat) (bytes : Text) : Text :=
  (file.take offset ++ bytes ++ file.drop (offset + bytes.length)).take file.length

/-- The draft as an image. A section that was padded beyond its slot reaches into those behind
it. -/
def encode (d : Draft) : Except DraftError Text := do
  let head := d.head (← d.commands)
  if slotSize < head.length then throw .commandsOverflow
  let empty : Text := List.replicate (storedSlots * slotSize) 0
  let stored := d.sections.filter fun s => !s.isZeroFill && !s.contents.isEmpty
  return stored.foldl (fun file s => overwrite file (s.slot * slotSize) s.contents)
    (overwrite empty 0 head)

end Draft

namespace Archive

/-- The alignment of the slices of a new archive, as a power of two. -/
def alignment : UInt32 := 12

/-- The number of bytes that a slice takes up with its padding. -/
def paddedSize (size : Nat) : Nat := (size + 0xFFF) / 0x1000 * 0x1000

/-- The bytes of a slice with their padding. -/
def pad (bytes : Text) : Text := bytes ++ List.replicate (paddedSize bytes.length - bytes.length) 0

/-- The records of slices, whose bytes lie one behind the other from an offset on. -/
def records : Nat → List (CpuType × CpuSubtype × Text) → Text
  | _, [] => []
  | offset, (cpu, sub, bytes) :: rest =>
    (Slice.mk cpu sub offset.toUInt32 bytes.length.toUInt32 alignment).record ++
      records (offset + paddedSize bytes.length) rest

/-- An archive of images. -/
def encode (slices : List (CpuType × CpuSubtype × Text)) : Text :=
  let head := [Slice.archiveMagic, slices.length.toUInt32].flatMap ByteOrder.big.bytes32 ++
    records 0x1000 slices
  pad head ++ slices.flatMap fun (_, _, bytes) => pad bytes

end Archive

end ObjcLens
