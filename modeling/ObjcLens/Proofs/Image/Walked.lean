import ObjcLens.Proofs.Fixups.Word
import ObjcLens.Proofs.Image.Mapped
import ObjcLens.Proofs.Image.Translation
import ObjcLens.Proofs.Image.Written

/-!
# What the walk along the chains sees

The walk along the chains of fixups reads the image by offsets from its base, and goes through the
segments to the file. A read at an address goes through the sections first, and knows which bytes
are zeros that the file does not have. In an image whose sections lie where their segments put
them, both arrive at the same bytes of the file. But the walk does not know the zeros: the place of
a zero in the file belongs to whatever comes next there, and the walk takes it for a pointer.

## Main results

* `IsPlaced.shown_eq`: a read shows what the walk sees, with zeros where the file has nothing.
* `walked_as_shown`: so pointers that the walk finds have the words that are read.
* `stray_pointer_not_shown`: a pointer that the walk finds among zeros.
-/

namespace ObjcLens

/-- The section lies in that part of a segment that is in the file, and is there as far behind the
start of the segment as it is among the addresses. -/
structure Section.IsPlacedIn (s : Section) (t : Segment) : Prop where
  addr_le : t.addr.toNat ≤ s.addr.toNat
  stop_le : s.addr.toNat + s.size.toNat ≤ t.addr.toNat + min t.fileSize.toNat t.memSize.toNat
  shift_eq : (s.addr.toNat : ℤ) - t.addr.toNat = s.offset.toNat - t.offset.toNat

/-- A section leads to the same place in the file as the segment that it lies in. -/
theorem Section.IsPlacedIn.offset_eq {s : Section} {t : Segment} (h : s.IsPlacedIn t)
    (addr : UInt64) : s.offset.toUInt64 + (addr - s.addr) = addr - t.addr + t.offset := by
  have hshift : s.offset.toUInt64 + t.addr = s.addr + t.offset := by
    have hsum := h.shift_eq
    rw [← UInt64.toNat_inj, UInt64.toNat_add, UInt64.toNat_add, UInt32.toNat_toUInt64]
    congr 1
    omega
  grind

namespace Image

/-- The segments have no addresses in common, and every section that is not just filled with zeros
lies in a segment. -/
structure IsPlaced (image : Image) : Prop where
  memory_disjoint : image.segments.Pairwise fun s t => Disjoint s.memory t.memory
  placed : ∀ s ∈ image.sections, s.isZeroFill = false → ∃ t ∈ image.segments, s.IsPlacedIn t

/-- The byte that is some bytes behind an address is a zero which the file does not have: the
section of the address is filled with zeros or, if there is none, the bytes that its segment has in
the file end in front of the byte. -/
def isBlank (image : Image) (addr : UInt64) (i : Nat) : Bool :=
  match image.sectionAt? addr with
  | some s => s.isZeroFill
  | none => match image.segmentAt? addr with
    | some t => t.fileSize.toNat ≤ (addr - t.addr).toNat + i
    | none => false

/-- The bytes from an address on, with zeros where the file has nothing. -/
def blanked (image : Image) (addr : UInt64) (bytes : Text) : Text :=
  bytes.mapIdx fun i b => if image.isBlank addr i then 0 else b

variable {image : Image} {addr : UInt64} {count : Nat} {walked shown : Text}

/-- Only one byte is stored at a place. -/
theorem IsStored.unique {offset : Nat} {b c : UInt8} (hb : image.IsStored offset b)
    (hc : image.IsStored offset c) : b = c :=
  Option.some.inj (hb.getElem?_eq.symm.trans hc.getElem?_eq)

/-- The walk goes through the segment of an address to the file. -/
theorem reader_eq_ok_iff :
    image.reader (addr - image.baseAddress) count = .ok walked ↔
      ∃ t, image.segmentAt? addr = some t ∧
        image.readAt (signed64 (addr - t.addr + t.offset)) count = .ok walked := by
  have haddr : image.baseAddress + (addr - image.baseAddress) = addr := by
    rw [UInt64.add_comm, UInt64.sub_add_cancel]
  unfold reader
  rw [haddr, Except.mapError_eq_ok_iff, Except.bind_eq_ok_iff, offsetOf]
  cases image.segmentAt? addr with
  | none => simp
  | some t => simp

/-- The bytes that the walk sees are stored where the segment of the address leads to. -/
theorem isStored_of_reader (hsize : image.size < 2 ^ 63)
    (h : image.reader (addr - image.baseAddress) count = .ok walked) :
    walked.length = count ∧ ∃ t, image.segmentAt? addr = some t ∧
      ∀ i (hi : i < walked.length),
        image.IsStored ((addr - t.addr + t.offset).toNat + i) walked[i] := by
  obtain ⟨t, ht, hread⟩ := reader_eq_ok_iff.1 h
  obtain ⟨hlength, hstored⟩ := isStored_of_readAt hsize hread
  exact ⟨hlength, t, ht, hstored⟩

/-- The segment of an address in a section is the one that the section lies in. -/
theorem IsPlaced.segment_eq (h : image.IsPlaced) {s : Section} {t u : Segment}
    (ht : image.segmentAt? addr = some t) (hu : u ∈ image.segments) (hplaced : s.IsPlacedIn u)
    (hcontains : s.contains addr = true) : t = u := by
  obtain ⟨hs, haddr⟩ := contains_of_segmentAt? ht
  obtain ⟨hlow, hhigh, -⟩ := Segment.contains_iff.1 haddr
  obtain ⟨hlow', hhigh', -⟩ := Section.contains_iff.1 hcontains
  have hstart := hplaced.addr_le
  have hstop := hplaced.stop_le
  exact eq_of_mem_range h.memory_disjoint hs hu ⟨hlow, hhigh⟩ ⟨by omega, by omega⟩

/-- If the sections of an image lie where their segments put them, a read shows what the walk sees,
with zeros where the file has nothing. -/
theorem IsPlaced.shown_eq (h : image.IsPlaced) (hsize : image.size < 2 ^ 63)
    (hcount : count < 2 ^ 64)
    (hwalked : image.reader (addr - image.baseAddress) count = .ok walked)
    (hshown : image.readAddr addr count = .ok shown) : shown = image.blanked addr walked := by
  obtain ⟨hlength, t, ht, hstored⟩ := isStored_of_reader hsize hwalked
  obtain ⟨hlength', hmaps⟩ := maps_of_readAddr hsize hcount hshown
  have hsame : shown.length = (image.blanked addr walked).length := by
    rw [blanked, List.length_mapIdx, hlength, hlength']
  refine List.ext_getElem hsame fun i hi _ => ?_
  have hwalk := hstored i (by omega)
  simp only [blanked, List.getElem_mapIdx]
  cases hmaps with
  | @«section» s first clear stop_le byte =>
    have hbyte := byte i hi
    unfold SectionByte at hbyte
    simp only [isBlank, first]
    cases hzero : s.isZeroFill with
    | true =>
      rw [if_pos hzero] at hbyte
      rw [if_pos rfl, hbyte]
    | false =>
      rw [if_neg (by simp [hzero])] at hbyte
      rw [if_neg (by simp)]
      obtain ⟨hs, hcontains⟩ := contains_of_sectionAt? first
      obtain ⟨t', ht', hplaced⟩ := h.placed s hs hzero
      obtain rfl : t = t' := h.segment_eq ht ht' hplaced hcontains
      rw [hplaced.offset_eq] at hbyte
      exact hbyte.unique hwalk
  | segment unsectioned first accessible stop_le byte =>
    obtain rfl := Option.some.inj (ht.symm.trans first)
    have hbyte := byte i hi
    unfold SegmentByte at hbyte
    simp only [isBlank, unsectioned, ht, decide_eq_true_iff]
    split at hbyte
    · rw [if_neg (by omega)]
      rw [UInt64.add_comm] at hbyte
      exact hbyte.unique hwalk
    · rw [if_pos (by omega), hbyte]

/-- The bytes are those that the walk sees if none of them is blank. -/
theorem blanked_eq_self (h : ∀ i < walked.length, image.isBlank addr i = false) :
    image.blanked addr walked = walked := by
  refine List.ext_getElem (by simp [blanked]) fun i _ hi => ?_
  simp [blanked, h i hi]

/-- The pointers of an image have the words that the walk sees. -/
theorem raw_eq_of_chainedFixups {chained : ChainedFixups} (h : image.chainedFixups = .ok chained)
    {fixup : Fixup} (hfixup : fixup ∈ chained.fixups.flatten) :
    ∃ walked, image.reader fixup.location fixup.format.size = .ok walked ∧
      fixup.raw = (image.order.toNat walked).toUInt64 := by
  rw [chainedFixups] at h
  cases hrange : image.fixupsRange? with
  | none =>
    simp only [hrange] at h
    cases h
  | some range =>
    simp only [hrange] at h
    obtain ⟨payload, -, hparse⟩ := Except.bind_eq_ok_iff.1 h
    rw [Except.mapError_eq_ok_iff, ChainedFixups.parse_eq_ok_iff] at hparse
    -- whatever chain the fixup is on, its word was read at its own location
    have hword := hparse.shows fixup hfixup
    rw [ChainedFixups.Shows, ChainedFixups.readWord] at hword
    split at hword
    · cases hword
    · rename_i walked hwalked
      exact ⟨walked, hwalked, (Except.ok.inj hword).symm⟩

/-- In an image whose sections lie where their segments put them, reads and the walk along the
chains see the same bytes but for the zeros that the file does not have. So a pointer that the walk
finds has the word that is read at its address, unless one of its bytes is such a zero. If it is as
wide as the pointers of the image are, this is the word that a pointer is read as. -/
theorem walked_as_shown (h : image.IsPlaced) (hsize : image.size < 2 ^ 63) :
    (∀ addr count walked shown, count < 2 ^ 63 →
      image.reader (addr - image.baseAddress) count = .ok walked →
      image.readAddr addr count = .ok shown →
        shown = image.blanked addr walked ∧
          ((∀ i < count, image.isBlank addr i = false) → shown = walked)) ∧
      ∀ chained, image.chainedFixups = .ok chained → ∀ fixup ∈ chained.fixups.flatten,
        let addr := image.baseAddress + fixup.location
        (∀ i < fixup.format.size, image.isBlank addr i = false) →
          (∀ shown, image.readAddr addr fixup.format.size = .ok shown →
            fixup.raw = (image.order.toNat shown).toUInt64) ∧
          (fixup.format.size = image.pointerSize → ∀ cause pointer,
            image.pointerWith (.error cause) addr = .ok pointer → pointer = ⟨fixup.raw, []⟩) := by
  have hread {addr : UInt64} {count : Nat} {walked shown : Text} (hcount : count < 2 ^ 63)
      (hwalked : image.reader (addr - image.baseAddress) count = .ok walked)
      (hshown : image.readAddr addr count = .ok shown)
      (hblank : ∀ i < count, image.isBlank addr i = false) : shown = walked := by
    obtain ⟨rfl, -⟩ := isStored_of_reader hsize hwalked
    rw [h.shown_eq hsize (by omega) hwalked hshown, blanked_eq_self hblank]
  refine ⟨fun addr count walked shown hcount hwalked hshown =>
    ⟨h.shown_eq hsize (by omega) hwalked hshown, hread hcount hwalked hshown⟩, ?_⟩
  intro chained hchained fixup hfixup addr hblank
  obtain ⟨walked, hwalked, hraw⟩ := raw_eq_of_chainedFixups hchained hfixup
  have hwidth : fixup.format.size < 2 ^ 63 := by
    rw [PointerFormat.size]
    split <;> decide
  -- the walk counts from the base address, so a fixup's location leads back to its address
  have hplace : addr - image.baseAddress = fixup.location := by grind
  rw [← hplace] at hwalked
  have hword (shown : Text) (hshown : image.readAddr addr fixup.format.size = .ok shown) :
      fixup.raw = (image.order.toNat shown).toUInt64 := by
    rw [hraw, hread hwidth hwalked hshown hblank]
  -- without a table of fixups a pointer is the word at its address
  refine ⟨hword, fun hsame cause pointer hpointer => ?_⟩
  obtain ⟨shown, hshown, hpointer⟩ := Except.bind_eq_ok_iff.1 hpointer
  rw [hword shown (hsame ▸ hshown)]
  exact (Except.ok.inj hpointer).symm

/-- The header of an image with three load commands. -/
private def strayHeader : FileHeader := ⟨Magic.image32, 7, 3, FileType.dylib, 3, 128, 0, 0⟩

/-- Two segments, of which the first one has four bytes in the file, and a command that tells where
the chained fixups are. -/
private def strayCommands : Text :=
  let words (ns : List UInt32) := ns.flatMap ByteOrder.big.bytes32
  words [1, 56] ++ List.replicate 16 0 ++ words [0x1000, 0x1000, 156, 4, 3, 3, 0, 0] ++
    words [1, 56] ++ List.replicate 16 0 ++ words [0x2000, 0x1000, 160, 64, 3, 3, 0, 0] ++
    words [0x80000034, 16, 164, 60]

/-- The bytes of the segments. Those of the first one hold the first pointer of a chain, which leads
to the zeros behind it. In the file the bytes of the second segment are there. They also hold the
chained fixups. -/
private def strayContents : Text :=
  let words (ns : List UInt32) := ns.flatMap ByteOrder.big.bytes32
  let halves (ns : List UInt16) := ns.flatMap fun n => ByteOrder.big.bytes 2 n.toNat
  words [0x04002000, 0x3000] ++ words [0, 28, 0, 0, 0, 1, 0] ++ words [1, 8] ++ words [24] ++
    halves [0x1000, 3] ++ words [0, 0x1000, 0] ++ halves [1, 0]

private def straySlice : Array UInt8 :=
  (strayHeader.encode .big ++ strayCommands ++ strayContents).toArray

/-- The image that the slice is opened as, with what its load commands say. -/
private def strayImage (found : List Load × List Section) : Image where
  header := strayHeader
  order := .big
  loads := found.1
  sections := markEncrypted found.1 found.2
  size := 224
  offset := 0
  contents := straySlice

/-- The slice is opened as the image that is stated. -/
private theorem ofSlice_straySlice {found : List Load × List Section}
    (h : Load.parseAll .big 3 0 strayHeader.size strayCommands = .ok found) :
    ofSlice straySlice (some 224) {} = .ok (strayImage found) := by
  have hlength : strayCommands.length = 128 := by decide +kernel
  have hroom : strayHeader.size + strayCommands.length ≤ sliceSize {} (some 224) := by
    rw [hlength]
    decide
  have hopen := ofSlice_encode_append .big (.inl (by decide) : strayHeader.IsImage) hlength.symm
    strayContents hroom
  have hall : straySlice.extract 0 224 = straySlice := by
    have hsize : straySlice.size = 224 := by decide +kernel
    rw [← hsize, Array.extract_size]
  refine hopen.trans ((congrArg _ h).trans (congrArg Except.ok ?_))
  rw [strayImage, ← hall]
  rfl

/-- The first pointer of the chain, whose bytes are in the file. -/
private def storedFixup : Fixup :=
  .rebase ⟨0x1000, 0x04002000, 3, 0x2000, true, 0, false, 0, 0⟩

/-- The second pointer of the chain, which stands where the segment has zeros. -/
private def strayFixup : Fixup :=
  .rebase ⟨0x1004, 0x3000, 3, 0x3000, true, 0, false, 0, 0⟩

/-- What is read of the slice, apart from the statement about it. -/
private theorem exists_straySlice : ∃ image chained,
    ofSlice straySlice (some 224) {} = .ok image ∧ image.chainedFixups = .ok chained ∧
      image.IsPlaced ∧ image.size = 224 ∧ image.baseAddress = 0 ∧ image.pointerSize = 4 ∧
      chained.fixups.flatten = [storedFixup, strayFixup] ∧
      (∀ s ∈ image.segments, s.addr.toNat + s.memSize.toNat < 2 ^ 64) ∧
      (∀ i < 4, image.isBlank 0x1000 i = false) ∧
      image.readAddr 0x1000 4 = .ok [4, 0, 0x20, 0] ∧ image.reader 0x1004 4 = .ok [0, 0, 0x30, 0] ∧
      image.readAddr 0x1004 4 = .ok [0, 0, 0, 0] := by
  have hall : (do
      let found ← Load.parseAll .big 3 0 strayHeader.size strayCommands
      let image := strayImage found
      let chained ← image.chainedFixups
      return decide (image.segments.Pairwise (fun s t : Segment => Disjoint s.memory t.memory) ∧
        image.sections = [] ∧ image.baseAddress = 0 ∧ image.pointerSize = 4 ∧
        chained.fixups.flatten = [storedFixup, strayFixup] ∧
        (∀ s ∈ image.segments, s.addr.toNat + s.memSize.toNat < 2 ^ 64) ∧
        (∀ i < 4, image.isBlank 0x1000 i = false) ∧
        (image.readAddr 0x1000 4).toOption = some [4, 0, 0x20, 0] ∧
        (image.reader 0x1004 4).toOption = some [0, 0, 0x30, 0] ∧
        (image.readAddr 0x1004 4).toOption = some [0, 0, 0, 0])).toOption = some true := by
    decide +kernel
  -- the image is evaluated once, for all the facts that are needed of it
  obtain ⟨found, hparse, h⟩ := Except.bind_eq_ok_iff.1 (Except.toOption_eq_some_iff.1 hall)
  obtain ⟨chained, hchained, h⟩ := Except.bind_eq_ok_iff.1 h
  have hfacts := of_decide_eq_true (Except.ok.inj h)
  simp only [Except.toOption_eq_some_iff] at hfacts
  obtain ⟨hdisjoint, hsections, hfacts⟩ := hfacts
  exact ⟨strayImage found, chained, ofSlice_straySlice hparse, hchained,
    ⟨hdisjoint, by simp [hsections]⟩, rfl, hfacts⟩

/-- The first pointer of the chain has the word that is read at its address. -/
theorem walked_as_shown_straySlice :
    ∃ (image : Image) (chained : ChainedFixups),
      (image.IsPlaced ∧ image.size < 2 ^ 63 ∧ image.chainedFixups = .ok chained ∧
        storedFixup ∈ chained.fixups.flatten ∧
        image.readAddr (image.baseAddress + storedFixup.location) storedFixup.format.size =
          .ok [4, 0, 0x20, 0]) ∧
      storedFixup.raw = (image.order.toNat [4, 0, 0x20, 0]).toUInt64 := by
  obtain ⟨image, chained, -, hchained, hplaced, hsize, hbase, -, hfixups, -, hblank, hread, -⟩ :=
    exists_straySlice
  have hsmall : image.size < 2 ^ 63 := by omega
  have hmem : storedFixup ∈ chained.fixups.flatten := by simp [hfixups]
  have haddr : image.baseAddress + storedFixup.location = 0x1000 := by
    rw [hbase]
    decide
  rw [← haddr] at hblank hread
  exact ⟨image, chained, ⟨hplaced, hsmall, hchained, hmem, hread⟩,
    ((walked_as_shown hplaced hsmall).2 chained hchained _ hmem hblank).1 _ hread⟩

/-- The second pointer of the chain stands where its segment has zeros. The walk takes the first
bytes of the other segment for it. -/
theorem stray_pointer_not_shown :
    ∃ image chained, ofSlice straySlice (some 224) {} = .ok image ∧ image.IsPlaced ∧
      (∀ s ∈ image.segments, s.addr.toNat + s.memSize.toNat < 2 ^ 64) ∧
      image.chainedFixups = .ok chained ∧ strayFixup ∈ chained.fixups.flatten ∧
      strayFixup.format.size = image.pointerSize ∧
      image.reader (0x1004 - image.baseAddress) 4 = .ok [0, 0, 0x30, 0] ∧
      image.readAddr 0x1004 4 = .ok [0, 0, 0, 0] ∧
      image.baseAddress + strayFixup.location = 0x1004 ∧ strayFixup.raw = 0x3000 ∧
      ∀ cause, image.pointerWith (.error cause) 0x1004 = .ok ⟨0, []⟩ := by
  obtain ⟨image, chained, hopen, hchained, hplaced, -, hbase, hwidth, hfixups, hfits, -, -, hwalked,
    hread⟩ := exists_straySlice
  have haddr : image.baseAddress + strayFixup.location = 0x1004 := by
    rw [hbase]
    decide
  refine ⟨image, chained, hopen, hplaced, hfits, hchained, by simp [hfixups], hwidth.symm,
    by rwa [hbase], hread, haddr, rfl, fun cause => ?_⟩
  -- the segment stores less than it maps, so the loader's word is not the one in memory
  rw [pointerWith, hwidth, hread, Except.ok_bind]
  cases image.order <;> rfl

end Image

end ObjcLens
