import ObjcLens.Proofs.Except
import ObjcLens.Proofs.Image.Stored

/-!
# Reading at an address

An image maps addresses to bytes. The first section that contains an address decides about it; only
if there is none does the first segment. A section is filled with zeros or with stored bytes. A
segment has stored bytes as far as it reaches in the file, and zeros behind them. `Maps` says this
without any reading, on natural numbers, and reading at an address agrees with it: what is read is
what is mapped, and whatever is mapped is read.

## Main results

* `readSection_eq_ok_iff`, `readSegment_eq_ok_iff`: what is read in one section or segment.
* `readAddr_maps`: a read that succeeds gives the mapped bytes and nothing else.
-/

namespace ObjcLens

namespace Image

/-- The byte of a section that is some bytes behind a place in it. -/
def SectionByte (image : Image) (s : Section) (inside : UInt64) (i : Nat) (b : UInt8) : Prop :=
  if s.isZeroFill then b = 0 else image.IsStored ((s.offset.toUInt64 + inside).toNat + i) b

/-- The byte of a segment that is some bytes behind a place in it. -/
def SegmentByte (image : Image) (s : Segment) (inside : UInt64) (i : Nat) (b : UInt8) : Prop :=
  if inside.toNat + i < s.fileSize.toNat then
    image.IsStored ((s.offset + inside).toNat + i) b
  else b = 0

/-- The image maps the addresses from one on to the bytes. All of them lie in the first section
that contains the address, which must not be encrypted, or, if there is none, in the first segment,
which must be accessible. -/
inductive Maps (image : Image) (addr : UInt64) (bytes : Text) : Prop
  | section {s : Section} (first : image.sectionAt? addr = some s)
      (clear : s.encrypted = false)
      (stop_le : addr.toNat + bytes.length ≤ s.addr.toNat + s.size.toNat)
      (byte : ∀ i (hi : i < bytes.length), image.SectionByte s (addr - s.addr) i bytes[i])
  | segment {s : Segment} (unsectioned : image.sectionAt? addr = none)
      (first : image.segmentAt? addr = some s) (accessible : s.prot ≠ 0)
      (stop_le : addr.toNat + bytes.length ≤ s.addr.toNat + s.memSize.toNat)
      (byte : ∀ i (hi : i < bytes.length), image.SegmentByte s (addr - s.addr) i bytes[i])

/-- A section that is found for an address contains it. -/
theorem contains_of_sectionAt? {image : Image} {addr : UInt64} {s : Section}
    (h : image.sectionAt? addr = some s) : s ∈ image.sections ∧ s.contains addr = true :=
  ⟨List.mem_of_find?_eq_some h, by simpa using List.find?_some h⟩

/-- A segment that is found for an address contains it. -/
theorem contains_of_segmentAt? {image : Image} {addr : UInt64} {s : Segment}
    (h : image.segmentAt? addr = some s) : s ∈ image.segments ∧ s.contains addr = true :=
  ⟨List.mem_of_find?_eq_some h, by simpa using List.find?_some h⟩

variable {image : Image} {addr : UInt64} {count : Nat} {bytes : Text}

/-- What is mapped does not wrap around the end of the addresses. -/
theorem Maps.stop_lt (h : image.Maps addr bytes) : addr.toNat + bytes.length < 2 ^ 64 := by
  cases h with
  | «section» first clear stop_le byte =>
    obtain ⟨-, hcontains⟩ := contains_of_sectionAt? first
    obtain ⟨-, -, hfits⟩ := Section.contains_iff.1 hcontains
    omega
  | segment unsectioned first accessible stop_le byte =>
    obtain ⟨-, hcontains⟩ := contains_of_segmentAt? first
    obtain ⟨-, -, hfits⟩ := Segment.contains_iff.1 hcontains
    omega

/-- Bytes are read in a section that is not encrypted, up to its end. -/
theorem readSection_eq_ok_iff {s : Section} (hcontains : s.contains addr = true)
    (hcount : count < 2 ^ 64) :
    image.readSection s addr count = .ok bytes ↔
      s.encrypted = false ∧ addr.toNat + count ≤ s.addr.toNat + s.size.toNat ∧
        if s.isZeroFill then bytes = List.replicate count 0
        else image.readAt (sectionOffset s addr) count = .ok bytes := by
  obtain ⟨-, -, hfits⟩ := Section.contains_iff.1 hcontains
  have hstop := stop_le_iff addr hcount hfits
  simp only [readSection, Bool.or_eq_true, decide_eq_true_iff]
  cases hencrypted : s.encrypted with
  | true => simp
  | false =>
    simp only [Bool.false_eq_true, if_false, true_and]
    -- the code compares the end modulo 2 ^ 64, which tells the same since the section itself fits
    by_cases hinside : addr.toNat + count ≤ s.addr.toNat + s.size.toNat
    · rw [if_neg (mt hstop.1 (not_not_intro hinside))]
      cases hzero : s.isZeroFill with
      | true => simp [hinside, eq_comm]
      | false => simp [hinside]
    · rw [if_pos (hstop.2 hinside)]
      simp [hinside]

/-- The number of bytes that a read in a segment takes from the file. -/
private theorem toNat_stored {inside fileSize : UInt64} (hstart : inside.toNat < fileSize.toNat)
    (hfits : inside.toNat + count < 2 ^ 64) :
    (if fileSize < inside + count.toUInt64 then fileSize - inside else count.toUInt64).toNat =
      min count (fileSize.toNat - inside.toNat) := by
  have hcount : count.toUInt64.toNat = count :=
    UInt64.toNat_ofNat_of_lt' (by rw [UInt64.size]; omega)
  have hstop : (inside + count.toUInt64).toNat = inside.toNat + count := by
    rw [UInt64.toNat_add, hcount, Nat.mod_eq_of_lt hfits]
  -- the code cuts off what goes past the stored part, which is taking the minimum
  by_cases hlong : fileSize < inside + count.toUInt64
  · have hle : inside ≤ fileSize := UInt64.le_iff_toNat_le.2 hstart.le
    rw [if_pos hlong, UInt64.toNat_sub_of_le _ _ hle]
    rw [UInt64.lt_iff_toNat_lt, hstop] at hlong
    omega
  · rw [if_neg hlong, hcount]
    rw [UInt64.lt_iff_toNat_lt, hstop] at hlong
    omega

/-- Bytes that are read touch no encrypted range, so that a second test makes no difference. -/
private theorem touchesEncrypted_of_readAt {place size : UInt64}
    (h : image.readAt (signed64 place) size.toNat = .ok bytes) :
    image.touchesEncrypted place size = false := by
  obtain ⟨hlow, -, htouch, -⟩ := readAt_eq_ok_iff.1 h
  have hplace := signed64_nonneg_iff.1 hlow
  have hwrap : wrap64 (signed64 place) = place := by
    rw [signed64_of_lt hplace, ← UInt64.toNat_inj]
    exact toNat_wrap64 place.toNat_lt
  have hsize : size.toNat.toUInt64 = size := UInt64.ofNat_toNat
  rwa [hwrap, hsize] at htouch

/-- Bytes are read in a segment that is accessible, up to its end: as many as are stored there, and
zeros behind them. -/
theorem readSegment_eq_ok_iff {s : Segment} (hcontains : s.contains addr = true)
    (hcount : count < 2 ^ 64) :
    image.readSegment s addr count = .ok bytes ↔
      s.prot ≠ 0 ∧ addr.toNat + count ≤ s.addr.toNat + s.memSize.toNat ∧
        let inside := addr - s.addr
        let stored := min count (s.fileSize.toNat - inside.toNat)
        if s.fileSize.toNat ≤ inside.toNat then bytes = List.replicate count 0
        else ∃ front, image.readAt (signed64 (s.offset + inside)) stored = .ok front ∧
          bytes = front ++ List.replicate (count - stored) 0 := by
  obtain ⟨hlow, -, hfits⟩ := Segment.contains_iff.1 hcontains
  have hstop := stop_le_iff addr hcount hfits
  have hinside : (addr - s.addr).toNat = addr.toNat - s.addr.toNat :=
    UInt64.toNat_sub_of_le _ _ (UInt64.le_iff_toNat_le.2 hlow)
  simp only [readSegment, Except.ite_throw_eq_ok_iff, Bool.or_eq_true, decide_eq_true_iff,
    or_assoc, hstop, not_or, not_not, and_assoc, UInt64.le_iff_toNat_le]
  refine and_congr_right fun _ => and_congr_right fun hfit => ?_
  -- wholly behind the stored part there is nothing to read; else the rest is filled up with zeros
  by_cases hbehind : s.fileSize.toNat ≤ (addr - s.addr).toNat
  · rw [if_pos hbehind, if_pos hbehind]
    exact ⟨fun h => (Except.ok.inj h).symm, fun h => congrArg Except.ok h.symm⟩
  · rw [if_neg hbehind, if_neg hbehind, Except.ite_throw_eq_ok_iff, Except.bind_eq_ok_iff,
      toNat_stored (by omega) (by omega)]
    constructor
    · rintro ⟨-, front, hfront, hbytes⟩
      exact ⟨front, hfront, (Except.ok.inj hbytes).symm⟩
    -- a read that succeeds has touched no encrypted byte, so the check in front of it passed
    · rintro ⟨front, hfront, rfl⟩
      refine ⟨?_, front, hfront, rfl⟩
      rw [Bool.not_eq_true]
      apply touchesEncrypted_of_readAt
      rw [toNat_stored (by omega) (by omega)]
      exact hfront

/-- Bytes that are all zero. -/
private theorem eq_replicate_zero_iff :
    bytes = List.replicate count 0 ↔
      bytes.length = count ∧ ∀ i (hi : i < bytes.length), bytes[i] = 0 := by
  rw [List.eq_replicate_iff, List.forall_mem_iff_forall_getElem]

/-- The bytes that a read in a section gives are those that the section is filled with. -/
private theorem sectionByte_of_read (hsize : image.size < 2 ^ 63) {s : Section}
    (h : if s.isZeroFill then bytes = List.replicate count 0
      else image.readAt (sectionOffset s addr) count = .ok bytes) :
    bytes.length = count ∧
      ∀ i (hi : i < bytes.length), image.SectionByte s (addr - s.addr) i bytes[i] := by
  unfold SectionByte
  split at h
  · rename_i hzero
    simp only [if_pos hzero]
    exact eq_replicate_zero_iff.1 h
  · rename_i hfilled
    simp only [if_neg hfilled]
    exact isStored_of_readAt hsize h

/-- The bytes that a section is filled with are read. -/
private theorem read_of_sectionByte (hsize : image.size < 2 ^ 63) {s : Section} (hne : bytes ≠ [])
    (h : ∀ i (hi : i < bytes.length), image.SectionByte s (addr - s.addr) i bytes[i]) :
    if s.isZeroFill then bytes = List.replicate bytes.length 0
      else image.readAt (sectionOffset s addr) bytes.length = .ok bytes := by
  unfold SectionByte at h
  split
  · rename_i hzero
    simp only [if_pos hzero] at h
    exact eq_replicate_zero_iff.2 ⟨rfl, h⟩
  · rename_i hfilled
    simp only [if_neg hfilled] at h
    exact readAt_of_isStored hsize hne h

/-- The bytes that a read in a segment gives are those that the segment has in the file, and zeros
behind them. -/
private theorem segmentByte_of_read (hsize : image.size < 2 ^ 63) {s : Segment} {inside : UInt64}
    {front : Text} (hstart : inside.toNat < s.fileSize.toNat)
    (h : image.readAt (signed64 (s.offset + inside))
      (min count (s.fileSize.toNat - inside.toNat)) = .ok front) :
    let bytes := front ++ List.replicate (count - min count (s.fileSize.toNat - inside.toNat)) 0
    bytes.length = count ∧
      ∀ i (hi : i < bytes.length), image.SegmentByte s inside i bytes[i] := by
  obtain ⟨hlength, hstored⟩ := isStored_of_readAt hsize h
  intro bytes
  have hcount : bytes.length = count := by
    rw [List.length_append, List.length_replicate]
    omega
  refine ⟨hcount, fun i hi => ?_⟩
  rcases lt_or_ge i front.length with hfront | hbehind
  · have hget : bytes[i] = front[i] := List.getElem_append_left hfront
    rw [SegmentByte, if_pos (by omega), hget]
    exact hstored i hfront
  · -- the file ends in front of this byte
    have hget : bytes[i] = 0 := by
      rw [List.getElem_append_right hbehind, List.getElem_replicate]
    rw [SegmentByte, if_neg (by omega), hget]

/-- The bytes of a segment are read: those in the file at their offset, and zeros behind them. -/
private theorem read_of_segmentByte (hsize : image.size < 2 ^ 63) {s : Segment} {inside : UInt64}
    (hne : bytes ≠ []) (hstart : inside.toNat < s.fileSize.toNat)
    (h : ∀ i (hi : i < bytes.length), image.SegmentByte s inside i bytes[i]) :
    let stored := min bytes.length (s.fileSize.toNat - inside.toNat)
    ∃ front, image.readAt (signed64 (s.offset + inside)) stored = .ok front ∧
      bytes = front ++ List.replicate (bytes.length - stored) 0 := by
  intro stored
  have hpos := List.length_pos_iff.2 hne
  have hlength : (bytes.take stored).length = stored := by
    rw [List.length_take]
    omega
  refine ⟨bytes.take stored, ?_, ?_⟩
  · have hread : image.readAt (signed64 (s.offset + inside)) (bytes.take stored).length =
        .ok (bytes.take stored) := by
      apply readAt_of_isStored hsize
      · rw [← List.length_pos_iff]
        omega
      · intro i hi
        have hbyte := h i (by omega)
        rw [SegmentByte, if_pos (by omega)] at hbyte
        rw [List.getElem_take]
        exact hbyte
    rwa [hlength] at hread
  · -- nothing but zeros is behind what is stored
    have hzeros : bytes.drop stored = List.replicate (bytes.length - stored) 0 := by
      rw [eq_replicate_zero_iff]
      refine ⟨List.length_drop, fun i hi => ?_⟩
      rw [List.length_drop] at hi
      have hbyte := h (stored + i) (by omega)
      rw [SegmentByte, if_neg (by omega)] at hbyte
      rw [List.getElem_drop]
      exact hbyte
    rw [← hzeros, List.take_append_drop]

/-- What is read at an address is mapped there. -/
theorem maps_of_readAddr (hsize : image.size < 2 ^ 63) (hcount : count < 2 ^ 64)
    (h : image.readAddr addr count = .ok bytes) :
    bytes.length = count ∧ image.Maps addr bytes := by
  rw [readAddr] at h
  cases hsection : image.sectionAt? addr with
  | some s =>
    -- a section decides, whatever segment the address is in
    simp only [hsection] at h
    obtain ⟨-, hcontains⟩ := contains_of_sectionAt? hsection
    obtain ⟨hclear, hstop, hread⟩ := (readSection_eq_ok_iff hcontains hcount).1 h
    obtain ⟨hlength, hbytes⟩ := sectionByte_of_read hsize hread
    rw [← hlength] at hstop
    exact ⟨hlength, .section hsection hclear hstop hbytes⟩
  | none =>
    cases hsegment : image.segmentAt? addr with
    | none =>
      simp only [hsection, hsegment] at h
      cases h
    | some s =>
      simp only [hsection, hsegment] at h
      obtain ⟨-, hcontains⟩ := contains_of_segmentAt? hsegment
      obtain ⟨hprot, hstop, hread⟩ := (readSegment_eq_ok_iff hcontains hcount).1 h
      suffices hbytes : bytes.length = count ∧
          ∀ i (hi : i < bytes.length), image.SegmentByte s (addr - s.addr) i bytes[i] by
        obtain ⟨hlength, hbytes⟩ := hbytes
        rw [← hlength] at hstop
        exact ⟨hlength, .segment hsection hsegment hprot hstop hbytes⟩
      dsimp only at hread
      split at hread
      · -- the file has nothing for these addresses
        rename_i hbehind
        obtain ⟨hlength, hzero⟩ := eq_replicate_zero_iff.1 hread
        refine ⟨hlength, fun i hi => ?_⟩
        rw [SegmentByte, if_neg (by omega)]
        exact hzero i hi
      · rename_i hstart
        obtain ⟨front, hfront, rfl⟩ := hread
        exact segmentByte_of_read hsize (Nat.not_le.1 hstart) hfront

/-- What is mapped to an address is read there. -/
theorem readAddr_of_maps (hsize : image.size < 2 ^ 63) (hne : bytes ≠ [])
    (h : image.Maps addr bytes) : image.readAddr addr bytes.length = .ok bytes := by
  have hcount : bytes.length < 2 ^ 64 := by
    have hstop := h.stop_lt
    omega
  cases h with
  -- the first section that contains the address decides, also where it refuses the read
  | «section» first clear stop_le byte =>
    obtain ⟨-, hcontains⟩ := contains_of_sectionAt? first
    simp only [readAddr, first]
    rw [readSection_eq_ok_iff hcontains hcount]
    exact ⟨clear, stop_le, read_of_sectionByte hsize hne byte⟩
  | @segment s unsectioned first accessible stop_le byte =>
    obtain ⟨-, hcontains⟩ := contains_of_segmentAt? first
    simp only [readAddr, unsectioned, first]
    rw [readSegment_eq_ok_iff hcontains hcount]
    refine ⟨accessible, stop_le, ?_⟩
    dsimp only
    split
    · rename_i hbehind
      refine eq_replicate_zero_iff.2 ⟨rfl, fun i hi => ?_⟩
      have hbyte := byte i hi
      rwa [SegmentByte, if_neg (by omega)] at hbyte
    · rename_i hstart
      exact read_of_segmentByte hsize hne (Nat.not_le.1 hstart) byte

/-- Address reads of an opened image return the mapped bytes and nothing else. The sizes of a slice
and of a buffer are signed numbers of 64 bits. If a read succeeds, it gives as many bytes as were
asked for, its addresses do not wrap, and all of them are mapped to these bytes by the section or
segment that decides about the first one. Conversely, whatever is mapped is read, unless nothing is
asked for. -/
theorem readAddr_maps {source : Array UInt8} {told : Option Nat} {bounds : SliceBounds}
    (hopen : ofSlice source told bounds = .ok image) (hsize : sliceSize bounds told < 2 ^ 63)
    (addr : UInt64) {count : Nat} (hcount : count < 2 ^ 63) (bytes : Text) :
    (image.readAddr addr count = .ok bytes →
        bytes.length = count ∧ addr.toNat + count < 2 ^ 64 ∧ image.Maps addr bytes) ∧
      (0 < count → bytes.length = count → image.Maps addr bytes →
        image.readAddr addr count = .ok bytes) := by
  obtain ⟨himage, -, -⟩ := ofSlice_eq_ok hopen
  rw [← himage] at hsize
  constructor
  · intro h
    obtain ⟨rfl, hmaps⟩ := maps_of_readAddr hsize (by omega) h
    exact ⟨rfl, hmaps.stop_lt, hmaps⟩
  -- an empty read is left out: no byte need be stored for it, but its place in the file is checked
  · rintro hpos rfl hmaps
    exact readAddr_of_maps hsize (List.length_pos_iff.1 hpos) hmaps

/-- A slice with a segment of 4096 addresses, of which four have bytes in the file. The first two of
these bytes are encrypted. -/
def halfSealedSlice : Array UInt8 :=
  ([0xFEEDFACE, 7, 3, 6, 2, 76, 0, 1, 56].flatMap ByteOrder.big.bytes32 ++ List.replicate 16 0 ++
    [0x1000, 0x1000, 104, 4, 3, 3, 0, 0, 0x21, 20, 104, 2, 1].flatMap ByteOrder.big.bytes32 ++
    [1, 2, 3, 4]).toArray

/-- A read that starts in front of the end of the file and ends behind it. -/
theorem readAddr_maps_halfSealedSlice :
    ∃ image, (ofSlice halfSealedSlice (some 108) {} = .ok image ∧
        sliceSize {} (some 108) < 2 ^ 63 ∧ 4 < 2 ^ 63 ∧
        image.readAddr 0x1002 4 = .ok [3, 4, 0, 0]) ∧
      (0x1002 : UInt64).toNat + 4 < 2 ^ 64 ∧ image.Maps 0x1002 [3, 4, 0, 0] := by
  have hread : (do (← ofSlice halfSealedSlice (some 108) {}).readAddr 0x1002 4).toOption =
      some [3, 4, 0, 0] := by decide +kernel
  rw [Except.toOption_eq_some_iff, Except.bind_eq_ok_iff] at hread
  obtain ⟨image, hopen, hbytes⟩ := hread
  obtain ⟨-, hstop, hmaps⟩ :=
    (readAddr_maps hopen (by decide) 0x1002 (by decide) [3, 4, 0, 0]).1 hbytes
  exact ⟨image, ⟨hopen, by decide, by decide, hbytes⟩, hstop, hmaps⟩

end Image

end ObjcLens
