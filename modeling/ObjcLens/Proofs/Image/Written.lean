import ObjcLens.Proofs.Bytes
import ObjcLens.Proofs.Image.Open

/-!
# Headers and load commands are read back

A slice starts with a header, which tells the size of the load commands behind it. The magic number
of the header is a word that reads as itself in one byte order only, so it tells the byte order of
all others, and with it how wide addresses are and how long the header is. What stands behind the
load commands makes no difference.

## Main results

* `FileHeader.headerOfBytes_encode`: a header is read back from its bytes.
* `ofSlice_encode_append`: a slice is opened by scanning the load commands behind its header.
* `ofSlice_of_otherCommands`: commands of other kinds are kept as they were written.
-/

namespace ObjcLens

/-- The codes of the commands that are interpreted. -/
def CommandCode.interpreted : List CommandCode :=
  [segment, segment64, uuid, encryptionInfo, encryptionInfo64, codeSignature, chainedFixups,
    loadDylib, idDylib, loadWeakDylib, reexportDylib, rpath, buildVersion, sourceVersion]

/-- The header starts an image. The reserved word is not written in 32-bit images. -/
def FileHeader.IsImage (header : FileHeader) : Prop :=
  header.magic = Magic.image32 ∧ header.reserved = 0 ∨ header.magic = Magic.image64

namespace FileHeader

variable {header : FileHeader} (order : ByteOrder)

/-- A header is written with its own size. -/
@[simp]
theorem length_encode (header : FileHeader) : (header.encode order).length = header.size := by
  rw [encode, size]
  split <;> simp [size32, size64]

theorem four_le_size (header : FileHeader) : 4 ≤ header.size := by
  rw [size]
  split <;> decide

theorem size_le (header : FileHeader) : header.size ≤ 32 := by
  rw [size]
  split <;> decide

/-- The magic number tells how long the header is. -/
theorem IsImage.headerLength_eq (h : header.IsImage) :
    Image.headerLength header.magic = header.size := by
  rcases h with ⟨hmagic, -⟩ | hmagic <;> rw [Image.headerLength, size, hmagic] <;> decide

/-- The magic number tells the byte order. -/
theorem IsImage.identify_eq (h : header.IsImage) :
    Image.identify (order.bytes32 header.magic) = some (order, header.magic) := by
  rcases h with ⟨hmagic, -⟩ | hmagic <;> rw [hmagic] <;> cases order <;> decide

/-- A header is read back from its bytes. -/
theorem headerOfBytes_encode (h : header.IsImage) :
    Image.headerOfBytes order header.magic (header.encode order) = header := by
  obtain ⟨magic, cpu, sub, type, count, size, flags, reserved⟩ := header
  rcases h with ⟨rfl, rfl⟩ | rfl
  · -- the reserved word would stand behind the bytes of the header
    have hnone : order.word32 [] = 0 := by cases order <;> rfl
    simp [Image.headerOfBytes, encode, List.drop_append, List.drop_eq_nil_of_le, hnone]
  · have hwide : Magic.image64 ≠ Magic.image32 := by decide
    simp [Image.headerOfBytes, encode, List.drop_append, List.drop_eq_nil_of_le, hwide]

end FileHeader

/-- A command of another kind is kept as it is. -/
theorem Load.parse_of_notMem {order : ByteOrder} {first : Nat} {place : Int} {code : CommandCode}
    {raw : Text} (h : code ∉ CommandCode.interpreted) :
    Load.parse order first place code raw = .ok (⟨code, raw, .other⟩, []) := by
  simp only [CommandCode.interpreted, List.mem_cons, List.not_mem_nil, or_false, not_or] at h
  simp [Load.parse, Load.parseBody, h]

/-- Commands of other kinds are found as they are, and list no sections. -/
theorem Load.scans_flatten {order : ByteOrder} {raws : List Text}
    (h : ∀ raw ∈ raws, IsFramed order raw ∧ order.word32 raw ∉ CommandCode.interpreted)
    (first : Nat) (place : Int) :
    Scans order first place raws.flatten (raws.map fun raw => ⟨order.word32 raw, raw, .other⟩)
      [] := by
  induction raws generalizing first place with
  | nil => exact .done _ _ _
  | cons raw rest ih =>
    rw [List.forall_mem_cons] at h
    exact .command h.1.1 (parse_of_notMem h.1.2) (ih h.2 _ _)

namespace Image

/-- The bytes at an offset of a text. -/
theorem bytesAt_toArray (bytes : Text) (offset count : Nat) :
    bytesAt bytes.toArray offset count = (bytes.drop offset).take count := by
  rw [bytesAt, if_neg (by omega)]
  simp [List.take_drop]

/-- A stretch of a slice is read, whatever is around it. -/
theorem readAll_append {file bytes : Text} {size offset count : Nat} (before after : Text)
    (hfile : file = before ++ bytes ++ after) (hoffset : offset = before.length)
    (hcount : count = bytes.length) (hroom : offset + count ≤ size) :
    readAll (file.toArray.extract 0 size) size offset count = .ok bytes := by
  subst hfile hoffset hcount
  have hlength : (before ++ bytes).length ≤ size := by rwa [List.length_append]
  rw [readAll_eq_ok_iff, List.extract_toArray, bytesAt_toArray, List.extract_eq_take_drop,
    List.drop_zero, Nat.sub_zero, List.take_append, List.take_of_length_le hlength,
    List.append_assoc, List.drop_left, List.take_left]
  exact ⟨hroom, rfl, rfl⟩

variable {header : FileHeader} {told : Option Nat} {bounds : SliceBounds}

/-- A slice is opened by scanning the load commands behind its header. -/
theorem ofSlice_encode_append {block : Text} (order : ByteOrder) (h : header.IsImage)
    (hsize : header.commandSize.toNat = block.length) (tail : Text)
    (hroom : header.size + block.length ≤ sliceSize bounds told) :
    ofSlice (header.encode order ++ block ++ tail).toArray told bounds =
      (Load.parseAll order header.commandCount.toNat 0 header.size block).map fun found => {
        header, order
        loads := found.1
        sections := markEncrypted found.1 found.2
        size := sliceSize bounds told
        offset := bounds.offset
        contents := (header.encode order ++ block ++ tail).toArray.extract 0
          (sliceSize bounds told) } := by
  have hlength := header.length_encode order
  -- the magic number is read twice, alone and with the header
  obtain ⟨rest, hstart⟩ : ∃ rest, header.encode order = order.bytes32 header.magic ++ rest :=
    ⟨_, by rw [FileHeader.encode, List.flatMap_cons, List.append_assoc]⟩
  have hfour := header.four_le_size
  rw [ofSlice_eq_ofContents]
  generalize hfile : header.encode order ++ block ++ tail = file
  generalize sliceSize bounds told = size at hroom
  have hfirst : readAll (file.toArray.extract 0 size) size (0 : Nat) 4 =
      .ok (order.bytes32 header.magic) :=
    readAll_append [] (rest ++ block ++ tail) (by simp [← hfile, hstart]) rfl (by simp) (by omega)
  have hmagic := (readAll_eq_ok_iff.1 hfirst).2.1
  have hhead : readAll (file.toArray.extract 0 size) size (0 : Nat) header.size =
      .ok (header.encode order) :=
    readAll_append [] (block ++ tail) (by simp [← hfile]) rfl hlength.symm (by omega)
  have hblock : readAll (file.toArray.extract 0 size) size header.size block.length = .ok block :=
    readAll_append _ tail hfile.symm hlength.symm rfl hroom
  rw [Int.natCast_zero] at hmagic hhead
  simp only [ofContents, hmagic, h.identify_eq, h.headerLength_eq, hhead, Except.ok_bind,
    FileHeader.headerOfBytes_encode order h, hsize, hblock]
  rfl

/-- Load commands of other kinds are kept as they were written, and so is the header. Whatever size
is stated or told of the slice must leave room for them. -/
theorem ofSlice_of_otherCommands {order : ByteOrder} {raws : List Text} (h : header.IsImage)
    (hraws : ∀ raw ∈ raws,
      Load.IsFramed order raw ∧ order.word32 raw ∉ CommandCode.interpreted)
    (hcount : header.commandCount.toNat = raws.length)
    (hsize : header.commandSize.toNat = raws.flatten.length) (tail : Text)
    (hstated : bounds.size ≤ 0 ∨ (header.size + raws.flatten.length : Nat) ≤ bounds.size)
    (htold : ∀ size ∈ told, header.size + raws.flatten.length ≤ size) :
    ∃ image,
      ofSlice (header.encode order ++ raws.flatten ++ tail).toArray told bounds = .ok image ∧
      image.header = header ∧ image.order = order ∧
      image.loads = raws.map (fun raw => ⟨order.word32 raw, raw, .other⟩) ∧
      image.sections = [] := by
  have hroom : header.size + raws.flatten.length ≤ sliceSize bounds told := by
    rw [sliceSize]
    split
    · omega
    · cases told with
      | some size => exact htold size rfl
      | none =>
        -- nothing bounds the slice, so the code takes the largest size there is
        have hword := header.commandSize.toNat_lt
        have hheader := header.size_le
        change header.size + raws.flatten.length ≤ 2 ^ 63 - 1
        omega
  have hscans := Load.scans_flatten hraws 0 header.size
  have hparse := Load.parseAll_eq_ok_iff.2 ⟨hscans, List.length_map _⟩
  rw [ofSlice_encode_append order h hsize tail hroom, hcount, hparse]
  exact ⟨_, rfl, rfl, rfl, rfl, rfl⟩

/-- The header of a 32-bit image with two load commands. -/
def twoCommands : FileHeader where
  magic := Magic.image32
  cpu := 12
  sub := 9
  type := FileType.execute
  commandCount := 2
  commandSize := 20
  flags := HeaderFlags.twoLevel
  reserved := 0

/-- The oldest version of the system that the image runs on, and a command that is made up. -/
def twoOtherCommands : List Text :=
  [[0x25, 0, 0, 0, 12, 0, 0, 0, 0, 0, 9, 0], [0x7F, 0, 0, 0, 8, 0, 0, 0]]

/-- A header with two commands of unknown types is read back. -/
theorem ofSlice_of_twoOtherCommands :
    ∃ image,
      ofSlice (twoCommands.encode .little ++ twoOtherCommands.flatten ++ [1, 2, 3]).toArray
        (some 51) {} = .ok image ∧
      image.header = twoCommands ∧ image.order = .little ∧
      image.loads =
        twoOtherCommands.map (fun raw => ⟨ByteOrder.little.word32 raw, raw, .other⟩) ∧
      image.sections = [] := by
  refine ofSlice_of_otherCommands (.inl (by decide)) ?_ (by decide) (by decide) [1, 2, 3]
    (.inl (by decide)) (by decide)
  exact List.forall_mem_cons.2 ⟨⟨⟨by decide, by decide⟩, by decide⟩,
    List.forall_mem_cons.2 ⟨⟨⟨by decide, by decide⟩, by decide⟩, by simp⟩⟩

end Image

end ObjcLens
