import Mathlib
import ObjcLens.Proofs.Bytes
import ObjcLens.Proofs.Image.Open

/-!
# Encrypted bytes are never read

Two images that differ only in bytes of encrypted ranges cannot be told apart by reading them.
`AgreeOutside` relates the bytes of the two. Every read is guarded: a read at a file offset by
`Image.touchesEncrypted`, the bytes of a section by its mark. So both images give the same bytes
and the same errors, and with them everything that is computed from reads.

## Main results

* `ofSlice_eq_ok`: what is known of an opened image.
* `ofContents_eq_map_withContents`: opening two slices with the same load commands.
* `tryRead_withContents`, `sectionData_withContents`: the two guarded reads.
* `readAddr_withContents`, `cstring_withContents`, `pointerAt_withContents`: reads by address.
* `chainedFixups_withContents`: the chained fixups.
-/

namespace ObjcLens

namespace EncryptionRange

/-- The file offset lies in the range. -/
def Covers (r : EncryptionRange) (i : Nat) : Prop :=
  r.offset.toNat ≤ i ∧ i < r.offset.toNat + r.size.toNat

/-- A range covers no byte of a stretch that it does not overlap. The stretch must not wrap around
the end of the address space, where the comparison goes wrong. -/
theorem not_covers_of_not_overlaps {r : EncryptionRange} {offset size : UInt64}
    (hfit : offset.toNat + size.toNat < 2 ^ 64) (h : r.overlaps offset size = false) {i : Nat}
    (hlow : offset.toNat ≤ i) (hhigh : i < offset.toNat + size.toNat) : ¬ r.Covers i := by
  have hstart := r.offset.toNat_lt
  have hsize := r.size.toNat_lt
  rintro ⟨hlow', hhigh'⟩
  simp only [overlaps, Bool.and_eq_false_iff, decide_eq_false_iff_not, UInt64.lt_iff_toNat_lt,
    UInt64.toNat_add, UInt32.toNat_toUInt64] at h
  omega

end EncryptionRange

namespace Image

/-- The image with other bytes behind it. -/
def withContents (image : Image) (contents : Array UInt8) : Image := { image with contents }

section Fields

variable (image : Image) (contents : Array UInt8)

@[simp] theorem withContents_header : (image.withContents contents).header = image.header := rfl
@[simp] theorem withContents_order : (image.withContents contents).order = image.order := rfl
@[simp] theorem withContents_loads : (image.withContents contents).loads = image.loads := rfl
@[simp] theorem withContents_sections :
    (image.withContents contents).sections = image.sections := rfl
@[simp] theorem withContents_size : (image.withContents contents).size = image.size := rfl
@[simp] theorem withContents_contents : (image.withContents contents).contents = contents := rfl

end Fields

/-- Two sequences of bytes of one length that differ only inside of the ranges. -/
structure AgreeOutside (ranges : List EncryptionRange) (a b : Array UInt8) : Prop where
  size_eq : a.size = b.size
  getElem?_eq : ∀ i, (∀ r ∈ ranges, ¬ r.Covers i) → a[i]? = b[i]?

/-- The bytes of a stretch are the same where two sequences agree. -/
theorem bytesAt_congr {a b : Array UInt8} (hsize : a.size = b.size) {start count : Nat}
    (h : ∀ i, start ≤ i → i < start + count → a[i]? = b[i]?) :
    bytesAt a start count = bytesAt b start count := by
  simp only [bytesAt]
  rw [if_neg (by omega), if_neg (by omega)]
  refine List.ext_getElem? fun i => ?_
  simp only [Int.toNat_natCast, Array.getElem?_toList, Array.getElem?_extract, hsize]
  split
  · exact h _ (by omega) (by omega)
  · rfl

/-- A stretch that touches no encrypted range has the same bytes in both images. -/
private theorem AgreeOutside.bytesAt_eq {ranges : List EncryptionRange} {a b : Array UInt8}
    (h : AgreeOutside ranges a b) {offset size : UInt64}
    (hfit : offset.toNat + size.toNat < 2 ^ 64)
    (htouch : ranges.any (·.overlaps offset size) = false) :
    bytesAt a offset.toNat size.toNat = bytesAt b offset.toNat size.toNat := by
  refine bytesAt_congr h.size_eq fun i hlow hhigh => h.getElem?_eq i fun r hr => ?_
  rw [List.any_eq_false] at htouch
  exact r.not_covers_of_not_overlaps hfit (Bool.eq_false_iff.2 (htouch r hr)) hlow hhigh

/-- The sections are marked as encrypted where they touch an encrypted range. -/
def IsMarked (image : Image) : Prop :=
  ∀ s ∈ image.sections, s.encrypted = (!s.isZeroFill && s.size != 0 &&
    (encryptionRanges image.loads).any (·.overlaps s.offset.toUInt64 s.size))

/-- An opened image has the size and the bytes of its slice, and its sections are marked. -/
theorem ofSlice_eq_ok {source : Array UInt8} {told : Option Nat} {bounds : SliceBounds}
    {image : Image} (h : ofSlice source told bounds = .ok image) :
    image.size = sliceSize bounds told ∧ image.contents = source.extract 0 image.size ∧
      image.IsMarked := by
  rw [ofSlice_eq_ofContents] at h
  obtain ⟨hcontents, hsize, sections, hsections⟩ := ofContents_eq_ok h
  refine ⟨hsize, by rw [hcontents, hsize], ?_⟩
  intro s hs
  rw [hsections, markEncrypted, List.mem_map] at hs
  obtain ⟨_, -, rfl⟩ := hs
  rfl

/-- The bytes may be put behind the image unnoticed: the image is well-formed, and the bytes
differ only in encrypted ranges. -/
structure Hides (image : Image) (contents : Array UInt8) : Prop where
  size_lt : image.size < 2 ^ 63
  marked : image.IsMarked
  agree : AgreeOutside (encryptionRanges image.loads) image.contents contents

section Reads

variable {image : Image} {contents : Array UInt8}

/-- A read at a file offset gives the same bytes or the same error. -/
theorem tryRead_withContents (h : image.Hides contents) (offset : Int) (count : Nat) :
    (image.withContents contents).tryRead offset count = image.tryRead offset count := by
  change (if _ then ([], some (Error.truncated offset count image.size))
    else if image.touchesEncrypted (wrap64 offset) count.toUInt64 = true then
      ([], some (image.encryptedAt (wrap64 offset)))
    else readWithin contents image.size offset count) = _
  unfold tryRead
  refine if_congr Iff.rfl rfl ?_
  split
  · rfl
  · rename_i htouch
    rw [readWithin, readWithin]
    split
    · rfl
    · -- the read lies inside the slice, so neither the offset nor the end wraps around
      rename_i hbounds
      have hsize := h.size_lt
      simp only [Bool.or_eq_true, decide_eq_true_eq, not_or, not_lt] at hbounds
      obtain ⟨start, rfl⟩ := Int.eq_ofNat_of_zero_le hbounds.1.1
      have hoffset : (wrap64 start).toNat = start := toNat_wrap64 (by omega)
      have hcount : count.toUInt64.toNat = count :=
        UInt64.toNat_ofNat_of_lt' (by rw [UInt64.size]; omega)
      have hbytes := h.agree.bytesAt_eq (by omega) (Bool.eq_false_iff.2 htouch)
      rw [hoffset, hcount] at hbytes
      rw [hbytes]

/-- A section shows the same bytes or the same error. -/
theorem sectionData_withContents (h : image.Hides contents) {s : Section}
    (hs : s ∈ image.sections) :
    (image.withContents contents).sectionData s = image.sectionData s := by
  unfold sectionData
  split
  · rfl
  · rename_i hencrypted
    split
    · rfl
    · rename_i hlarge
      split
      · rfl
      · rename_i hzero
        have hoffset := s.offset.toNat_lt
        rw [UInt64.not_lt, UInt64.le_iff_toNat_le] at hlarge
        change _ ≤ 0x1000000000000 at hlarge
        have hbytes : bytesAt image.contents s.offset.toNat s.size.toNat =
            bytesAt contents s.offset.toNat s.size.toNat := by
          by_cases hempty : s.size = 0
          · refine bytesAt_congr h.agree.size_eq fun i hlow hhigh => ?_
            rw [hempty] at hhigh
            exact absurd hhigh (by simpa using hlow)
          · rw [h.marked s hs] at hencrypted
            have hfit : s.offset.toUInt64.toNat + s.size.toNat < 2 ^ 64 := by
              rw [UInt32.toNat_toUInt64]
              omega
            have hbytes := h.agree.bytesAt_eq hfit (by simpa [hzero, hempty] using hencrypted)
            rwa [UInt32.toNat_toUInt64] at hbytes
        rw [hbytes]
        rfl

/-- Every read below goes through `tryRead`, so that the rest is unfolding. -/
theorem readAt_withContents (h : image.Hides contents) (offset : Int) (count : Nat) :
    (image.withContents contents).readAt offset count = image.readAt offset count := by
  rw [readAt, tryRead_withContents h, readAt]

/-- Words of 32 bits at file offsets are the same. -/
theorem word32At_withContents (h : image.Hides contents) (offset : Int) :
    (image.withContents contents).word32At offset = image.word32At offset := by
  rw [word32At, readAt_withContents h, word32At, withContents_order]

/-- Words of 64 bits at file offsets are the same. -/
theorem word64At_withContents (h : image.Hides contents) (offset : Int) :
    (image.withContents contents).word64At offset = image.word64At offset := by
  rw [word64At, readAt_withContents h, word64At, withContents_order]

/-- Words of the width of pointers are the same. -/
theorem wordAt_withContents (h : image.Hides contents) (offset : Int) :
    (image.withContents contents).wordAt offset = image.wordAt offset := by
  rw [wordAt, word64At_withContents h, word32At_withContents h, wordAt]
  rfl

/-- Bytes at an address are the same. -/
theorem readAddr_withContents (h : image.Hides contents) (addr : UInt64) (count : Nat) :
    (image.withContents contents).readAddr addr count = image.readAddr addr count := by
  have hsection (s : Section) :
      (image.withContents contents).readSection s addr count = image.readSection s addr count := by
    simp only [readSection, readAt_withContents h]
  have hsegment (s : Segment) :
      (image.withContents contents).readSegment s addr count = image.readSegment s addr count := by
    simp only [readSegment, readAt_withContents h]
    rfl
  simp only [readAddr, hsection, hsegment]
  rfl

/-- The pieces of a text are the same, one after the other. -/
private theorem cstringFrom_withContents (h : image.Hides contents) (s : Section)
    (start : UInt64) (fuel : Nat) (addr : UInt64) :
    (image.withContents contents).cstringFrom s start fuel addr =
      image.cstringFrom s start fuel addr := by
  induction fuel generalizing addr with
  | zero => rfl
  | succ fuel ih => simp only [cstringFrom, readAt_withContents h, ih]

/-- The text at an address is the same. -/
theorem cstring_withContents (h : image.Hides contents) (addr : UInt64) :
    (image.withContents contents).cstring addr = image.cstring addr := by
  simp only [cstring, cstringFrom_withContents h]
  rfl

/-- The chained fixups are followed through the same words. -/
theorem chainedFixups_withContents (h : image.Hides contents) :
    (image.withContents contents).chainedFixups = image.chainedFixups := by
  have hreader : (image.withContents contents).reader = image.reader := by
    funext offset count
    simp only [reader, readAt_withContents h]
    rfl
  simp only [chainedFixups, readAt_withContents h, hreader, withContents_order]
  rfl

/-- A pointer is resolved in the same way. -/
theorem pointerWith_withContents (h : image.Hides contents)
    (chained : Except Error ChainedFixups) (addr : UInt64) :
    (image.withContents contents).pointerWith chained addr = image.pointerWith chained addr := by
  simp only [pointerWith, readAddr_withContents h]
  rfl

/-- Pointers are the same. -/
theorem pointerAt_withContents (h : image.Hides contents) (addr : UInt64) :
    (image.withContents contents).pointerAt addr = image.pointerAt addr := by
  rw [pointerAt, chainedFixups_withContents h, pointerWith_withContents h, pointerAt]

end Reads

/-- The number of bytes that the header and the load commands of a slice take; four if the slice
is no image. -/
def headLength (contents : Array UInt8) : Nat :=
  match identify (bytesAt contents 0 4) with
  | none => 4
  | some (order, magic) =>
    let header := headerOfBytes order magic (bytesAt contents 0 (headerLength magic))
    headerLength magic + header.commandSize.toNat

/-- A slice is at least searched for a magic number. -/
private theorem four_le_headLength (contents : Array UInt8) : 4 ≤ headLength contents := by
  unfold headLength
  split
  · exact le_rfl
  · simp only [headerLength, FileHeader.size64, FileHeader.size32]
    split <;> omega

/-- What is read of the head of a slice is the same if the heads are. -/
private theorem readAll_congr {a b : Array UInt8} (hsize : a.size = b.size)
    (h : ∀ i < headLength a, a[i]? = b[i]?) (size : Nat) {start count : Nat}
    (hhead : start + count ≤ headLength a) :
    readAll b size start count = readAll a size start count := by
  have hbytes : bytesAt a start count = bytesAt b start count :=
    bytesAt_congr hsize fun i _ hi => h i (by omega)
  rw [readAll, readAll, readWithin, readWithin, hbytes]

/-- Slices with the same header and load commands are opened to the same image, up to the bytes
behind it, or fail with the same error. -/
theorem ofContents_eq_map_withContents {a b : Array UInt8} (hsize : a.size = b.size)
    (hhead : ∀ i < headLength a, a[i]? = b[i]?) (size : Nat) (offset : Int) :
    ofContents b size offset = (ofContents a size offset).map (·.withContents b) := by
  have hmagic : bytesAt b 0 4 = bytesAt a 0 4 := by
    have hfour := four_le_headLength a
    exact (@bytesAt_congr a b hsize 0 4 fun i _ hi => hhead i (by omega)).symm
  unfold ofContents
  rw [hmagic]
  cases hidentify : identify (bytesAt a 0 4) with
  | none => rfl
  | some found =>
    obtain ⟨order, magic⟩ := found
    have hlength : headLength a = headerLength magic +
        (headerOfBytes order magic (bytesAt a 0 (headerLength magic))).commandSize.toNat := by
      simp only [headLength, hidentify]
    have hheader : readAll b size 0 (headerLength magic) = readAll a size 0 (headerLength magic) :=
      @readAll_congr a b hsize hhead size 0 (headerLength magic) (by omega)
    simp only [hheader]
    cases hbytes : readAll a size 0 (headerLength magic) with
    | error e => rfl
    | ok bytes =>
      obtain rfl : bytesAt a 0 (headerLength magic) = bytes := (readAll_eq_ok_iff.1 hbytes).2.1
      have hblock := readAll_congr hsize hhead size hlength.ge
      simp only [bind, Except.bind, hblock]
      cases readAll a size (headerLength magic) _ with
      | error e => rfl
      | ok block =>
        simp only
        cases Load.parseAll order _ 0 (headerLength magic) block <;> rfl

end Image

end ObjcLens
