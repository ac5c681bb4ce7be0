import Mathlib
import ObjcLens.Proofs.Image.Secrecy

/-!
# The bytes that a slice stores

All numbers in an image are words that nobody has checked: starts and sizes are added modulo the
word size, and offsets are turned into signed numbers before they are used. The lemmas here say once
what this arithmetic does, so that reads can be stated with natural numbers. A stretch of addresses
that contains anything does not wrap, and an offset that would wrap is negative and refused.

A byte of the slice is stored at an offset if it is there and may be shown. Reading at an offset
gives stored bytes and nothing else, and refuses nothing but bytes that are not stored.

## Main results

* `within_iff`, `stop_le_iff`: stretches of words as stretches of numbers.
* `Image.readAt_eq_ok_iff`: what is checked when bytes are read at an offset.
* `Image.isStored_of_readAt`, `Image.readAt_of_isStored`: the bytes that are read are those that are
  stored.
-/

namespace ObjcLens

/-! ## Words -/

/-- A word is read as a number that is not negative if it is in the lower half. -/
theorem signed64_nonneg_iff {n : UInt64} : 0 ≤ signed64 n ↔ n.toNat < 2 ^ 63 := by
  have hbits : n.toBitVec.toNat = n.toNat := rfl
  have hlt := n.toNat_lt
  rw [signed64, Int64.toInt, UInt64.toBitVec_toInt64, BitVec.toInt_eq_toNat_cond, hbits]
  split <;> omega

/-- A stretch of words that contains one does not wrap around the end of the words. -/
theorem within_iff {start size word : UInt64} :
    (decide (start ≤ word) && decide (word < start + size)) = true ↔
      start.toNat ≤ word.toNat ∧ word.toNat < start.toNat + size.toNat ∧
        start.toNat + size.toNat < 2 ^ 64 := by
  have hstart := start.toNat_lt
  have hsize := size.toNat_lt
  rw [Bool.and_eq_true, decide_eq_true_iff, decide_eq_true_iff, UInt64.le_iff_toNat_le,
    UInt64.lt_iff_toNat_lt, UInt64.toNat_add]
  constructor
  · rintro ⟨hlow, hhigh⟩
    have hfits : start.toNat + size.toNat < 2 ^ 64 := by omega
    rw [Nat.mod_eq_of_lt hfits] at hhigh
    exact ⟨hlow, hhigh, hfits⟩
  · rintro ⟨hlow, hhigh, hfits⟩
    rw [Nat.mod_eq_of_lt hfits]
    exact ⟨hlow, hhigh⟩

/-- The two comparisons that a read makes keep it inside of a stretch, from a word in it on. -/
theorem stop_le_iff {start size : UInt64} (word : UInt64) {count : Nat} (hcount : count < 2 ^ 64)
    (hfits : start.toNat + size.toNat < 2 ^ 64) :
    (start + size < word + count.toUInt64 ∨ word + count.toUInt64 < word) ↔
      ¬ word.toNat + count ≤ start.toNat + size.toNat := by
  have hword := word.toNat_lt
  have hsame : count.toUInt64.toNat = count := UInt64.toNat_ofNat_of_lt' hcount
  rw [UInt64.lt_iff_toNat_lt, UInt64.lt_iff_toNat_lt, UInt64.toNat_add, UInt64.toNat_add, hsame,
    Nat.mod_eq_of_lt hfits]
  -- the end of the read is reduced at most once, and is then in front of its start
  omega

/-- A section contains an address inside of its range, unless the range reaches the end of all
addresses. -/
theorem Section.contains_iff {s : Section} {addr : UInt64} :
    s.contains addr = true ↔ s.addr.toNat ≤ addr.toNat ∧
      addr.toNat < s.addr.toNat + s.size.toNat ∧ s.addr.toNat + s.size.toNat < 2 ^ 64 :=
  within_iff

/-- A segment contains an address inside of its memory, unless that reaches the end of all
addresses. -/
theorem Segment.contains_iff {s : Segment} {addr : UInt64} :
    s.contains addr = true ↔ s.addr.toNat ≤ addr.toNat ∧
      addr.toNat < s.addr.toNat + s.memSize.toNat ∧ s.addr.toNat + s.memSize.toNat < 2 ^ 64 :=
  within_iff

/-- A segment contains an offset inside of its bytes in the file. -/
theorem Segment.containsOffset_iff {s : Segment} {offset : UInt64} :
    s.containsOffset offset = true ↔ s.offset.toNat ≤ offset.toNat ∧
      offset.toNat < s.offset.toNat + s.fileSize.toNat ∧
      s.offset.toNat + s.fileSize.toNat < 2 ^ 64 :=
  within_iff

/-! ## Encrypted ranges -/

/-- A range is active if it names a system and is not empty. -/
theorem EncryptionRange.isActive_iff {r : EncryptionRange} :
    r.isActive = true ↔ r.system ≠ 0 ∧ 0 < r.size.toNat := by
  rw [isActive, Bool.and_eq_true, decide_eq_true_iff, decide_eq_true_iff, UInt32.lt_iff_toNat_lt]
  rfl

/-- A range that overlaps a stretch covers a byte of it, unless one of them is empty. -/
theorem EncryptionRange.overlaps_eq_false_iff {r : EncryptionRange} {offset size : UInt64}
    (hactive : r.isActive = true) (hpos : 0 < size.toNat)
    (hfits : offset.toNat + size.toNat < 2 ^ 64) :
    r.overlaps offset size = false ↔ ∀ i < size.toNat, ¬ r.Covers (offset.toNat + i) := by
  constructor
  · intro h i hi
    exact not_covers_of_not_overlaps hfits h (by omega) (by omega)
  · intro h
    by_contra htouch
    rw [Bool.not_eq_false, overlaps, Bool.and_eq_true, decide_eq_true_iff, decide_eq_true_iff,
      UInt64.lt_iff_toNat_lt, UInt64.lt_iff_toNat_lt, UInt64.toNat_add, UInt64.toNat_add,
      UInt32.toNat_toUInt64, UInt32.toNat_toUInt64, Nat.mod_eq_of_lt hfits] at htouch
    obtain ⟨hfront, hbehind⟩ := htouch
    have hstart := r.offset.toNat_lt
    have hlength := r.size.toNat_lt
    have hrange := (isActive_iff.1 hactive).2
    rw [Nat.mod_eq_of_lt (by omega)] at hfront
    -- the later one of the two starts is covered
    rcases le_total r.offset.toNat offset.toNat with hle | hle
    · exact h 0 hpos ⟨by omega, by omega⟩
    · exact h (r.offset.toNat - offset.toNat) (by omega) ⟨by omega, by omega⟩

namespace Image

/-- The ranges of the commands that are really encrypted. -/
theorem mem_encryptionRanges_iff {loads : List Load} {r : EncryptionRange} :
    r ∈ encryptionRanges loads ↔
      (∃ load ∈ loads, load.body = .encryption r) ∧ r.isActive = true := by
  rw [encryptionRanges, List.mem_filterMap]
  constructor
  -- only a command that states a range gives one, and only if that range is active
  · rintro ⟨load, hload, hrange⟩
    split at hrange
    · rename_i hbody
      split at hrange
      · rename_i hactive
        obtain rfl := Option.some.inj hrange
        exact ⟨⟨load, hload, hbody⟩, hactive⟩
      · cases hrange
    · cases hrange
  · rintro ⟨⟨load, hload, hbody⟩, hactive⟩
    exact ⟨load, hload, by simp only [hbody, hactive, if_true]⟩

/-- A stretch of the file touches no encrypted range if none of its bytes is covered. -/
theorem touchesEncrypted_eq_false_iff {image : Image} {offset size : UInt64}
    (hpos : 0 < size.toNat) (hfits : offset.toNat + size.toNat < 2 ^ 64) :
    image.touchesEncrypted offset size = false ↔
      ∀ i < size.toNat, ∀ r ∈ encryptionRanges image.loads, ¬ r.Covers (offset.toNat + i) := by
  have hrange (r : EncryptionRange) (hr : r ∈ encryptionRanges image.loads) :
      r.overlaps offset size = false ↔ ∀ i < size.toNat, ¬ r.Covers (offset.toNat + i) :=
    r.overlaps_eq_false_iff (mem_encryptionRanges_iff.1 hr).2 hpos hfits
  rw [touchesEncrypted, List.any_eq_false]
  constructor
  · intro h i hi r hr
    exact (hrange r hr).1 (Bool.eq_false_iff.2 (h r hr)) i hi
  · intro h r hr
    rw [Bool.not_eq_true, hrange r hr]
    intro i hi
    exact h i hi r hr

/-! ## Reading at an offset -/

/-- A byte of the slice that may be shown: it is in the slice and in its data, and no encrypted
range covers it. -/
structure IsStored (image : Image) (offset : Nat) (b : UInt8) : Prop where
  lt_size : offset < image.size
  getElem?_eq : image.contents[offset]? = some b
  not_covers : ∀ r ∈ encryptionRanges image.loads, ¬ r.Covers offset

/-- The bytes at an offset, one by one. -/
theorem bytesAt_eq_iff {contents : Array UInt8} {start : Nat} {bytes : Text} :
    bytesAt contents start bytes.length = bytes ↔
      ∀ i (hi : i < bytes.length), contents[start + i]? = some bytes[i] := by
  have hstart : ¬ (start : Int) < 0 := by omega
  rw [bytesAt, if_neg hstart, Int.toNat_natCast]
  constructor
  · intro h i hi
    have hsome : ((contents.extract start (start + bytes.length)).toList)[i]? = some bytes[i] := by
      rw [h]
      exact List.getElem?_eq_getElem hi
    rw [Array.getElem?_toList, Array.getElem?_extract] at hsome
    split at hsome
    · exact hsome
    · cases hsome
  · intro h
    refine List.ext_getElem? fun i => ?_
    rw [Array.getElem?_toList, Array.getElem?_extract]
    by_cases hi : i < bytes.length
    · have hsome := h i hi
      have hlt : start + i < contents.size := (Array.getElem?_eq_some_iff.1 hsome).1
      rw [if_pos (by omega), hsome, List.getElem?_eq_getElem hi]
    · rw [if_neg (by omega), List.getElem?_eq_none (Nat.not_lt.1 hi)]

variable {image : Image} {bytes : Text}

/-- Bytes are read at an offset if all of them are in the slice, are there, and touch no encrypted
range. -/
theorem readAt_eq_ok_iff {offset : Int} {count : Nat} :
    image.readAt offset count = .ok bytes ↔
      0 ≤ offset ∧ offset + count ≤ image.size ∧
        image.touchesEncrypted (wrap64 offset) count.toUInt64 = false ∧
        bytesAt image.contents offset count = bytes ∧ bytes.length = count := by
  have hlength := length_bytesAt_le image.contents offset count
  rw [readAt, tryRead]
  by_cases hbounds : 0 ≤ offset ∧ offset + count ≤ image.size
  · have hinside : (decide (offset < 0) || decide ((image.size : Int) < offset) ||
        decide ((image.size : Int) - offset < count)) = false := by
      simp only [Bool.or_eq_false_iff, decide_eq_false_iff_not]
      omega
    simp only [hinside, hbounds, true_and, Bool.false_eq_true, if_false, readWithin]
    cases image.touchesEncrypted (wrap64 offset) count.toUInt64 with
    | true => simp
    | false =>
      by_cases hshort : (bytesAt image.contents offset count).length < count
      · simp only [if_pos hshort, Bool.false_eq_true, if_false]
        constructor
        · intro h
          cases h
        · -- fewer bytes are there than were asked for
          rintro ⟨-, rfl, hall⟩
          omega
      · simp only [if_neg hshort, Bool.false_eq_true, if_false, Except.ok.injEq, true_and]
        refine ⟨?_, And.left⟩
        rintro rfl
        exact ⟨rfl, by omega⟩
  · have houtside : (decide (offset < 0) || decide ((image.size : Int) < offset) ||
        decide ((image.size : Int) - offset < count)) = true := by
      simp only [Bool.or_eq_true, decide_eq_true_iff]
      omega
    simp only [houtside, if_true]
    constructor
    · intro h
      cases h
    · rintro ⟨hlow, hhigh, -⟩
      exact absurd ⟨hlow, hhigh⟩ hbounds

/-- What is read at an offset is stored there. -/
theorem isStored_of_readAt (hsize : image.size < 2 ^ 63) {place : UInt64} {count : Nat}
    (h : image.readAt (signed64 place) count = .ok bytes) :
    bytes.length = count ∧
      ∀ i (hi : i < bytes.length), image.IsStored (place.toNat + i) bytes[i] := by
  obtain ⟨hlow, hhigh, htouch, hbytes, hlength⟩ := readAt_eq_ok_iff.1 h
  refine ⟨hlength, fun i hi => ?_⟩
  have hplace := signed64_nonneg_iff.1 hlow
  rw [signed64_of_lt hplace] at hhigh htouch hbytes
  have hcount : count.toUInt64.toNat = count :=
    UInt64.toNat_ofNat_of_lt' (by rw [UInt64.size]; omega)
  have hwrap : (wrap64 place.toNat).toNat = place.toNat := toNat_wrap64 (by omega)
  rw [touchesEncrypted_eq_false_iff (by omega) (by omega), hwrap, hcount] at htouch
  rw [← hlength, bytesAt_eq_iff] at hbytes
  exact ⟨by omega, hbytes i hi, htouch i (by omega)⟩

/-- Bytes that are stored are read. -/
theorem readAt_of_isStored (hsize : image.size < 2 ^ 63) {place : UInt64} (hne : bytes ≠ [])
    (h : ∀ i (hi : i < bytes.length), image.IsStored (place.toNat + i) bytes[i]) :
    image.readAt (signed64 place) bytes.length = .ok bytes := by
  have hpos := List.length_pos_iff.2 hne
  have hfirst := (h 0 hpos).lt_size
  have hlast := (h (bytes.length - 1) (by omega)).lt_size
  have hcount : bytes.length.toUInt64.toNat = bytes.length :=
    UInt64.toNat_ofNat_of_lt' (by rw [UInt64.size]; omega)
  have hwrap : (wrap64 place.toNat).toNat = place.toNat := toNat_wrap64 (by omega)
  -- the last byte is stored, so the end is within the file and the offset is its own sign
  rw [signed64_of_lt (by omega), readAt_eq_ok_iff]
  refine ⟨by omega, by omega, ?_, ?_, rfl⟩
  · rw [touchesEncrypted_eq_false_iff (by omega) (by omega), hwrap, hcount]
    intro i hi
    exact (h i hi).not_covers
  · rw [bytesAt_eq_iff]
    intro i hi
    exact (h i hi).getElem?_eq

end Image

end ObjcLens
