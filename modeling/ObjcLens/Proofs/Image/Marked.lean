import ObjcLens.Proofs.Image.Stored
import ObjcLens.Proofs.Image.Written

/-!
# Which sections are marked as encrypted

When an image is opened, its sections are compared with the ranges that are really encrypted. A
section is to be marked if one of its bytes in the file lies in such a range. The comparison works
on words, and the size that a section states may be so large that the sum of offset and size is no
word any more: then the section seems to end near the start of the file, in front of the ranges that
it reaches over, and escapes the mark.

## Main results

* `EncryptionRange.overlaps_iff`: what the comparison of words says about bytes.
* `encrypted_iff_seals`: the sections that are marked.
* `sealed_section_not_encrypted`: a section that escapes.
-/

namespace ObjcLens

/-- The file offsets that a section states for its bytes, whether or not they are words. -/
def Section.file (s : Section) : Set ℕ := Set.Ico s.offset.toNat (s.offset.toNat + s.size.toNat)

/-- The file offsets of an encryption range. -/
def EncryptionRange.file (r : EncryptionRange) : Set ℕ :=
  Set.Ico r.offset.toNat (r.offset.toNat + r.size.toNat)

/-- The end of the bytes of a section does not deceive the comparison with a range: it is a word or,
if it is not, what remains of it is still behind the start of the range. -/
def Section.EndsBehind (s : Section) (r : EncryptionRange) : Prop :=
  s.offset.toNat + s.size.toNat < 2 ^ 64 ∨
    r.offset.toNat < s.offset.toNat + s.size.toNat - 2 ^ 64

/-- Two stretches of file offsets have an offset in common if each of them starts in front of the
end of the other one. -/
theorem Section.inter_nonempty_iff {s : Section} {r : EncryptionRange} (hs : 0 < s.size.toNat)
    (hr : 0 < r.size.toNat) :
    (s.file ∩ r.file).Nonempty ↔ s.offset.toNat < r.offset.toNat + r.size.toNat ∧
      r.offset.toNat < s.offset.toNat + s.size.toNat := by
  rw [Section.file, EncryptionRange.file, Set.Ico_inter_Ico, Set.nonempty_Ico]
  omega

/-- The comparison of words finds that a section touches a range if it does and its end does not
deceive. -/
theorem EncryptionRange.overlaps_iff {s : Section} {r : EncryptionRange} (hs : 0 < s.size.toNat)
    (hr : 0 < r.size.toNat) :
    r.overlaps s.offset.toUInt64 s.size = true ↔ (s.file ∩ r.file).Nonempty ∧ s.EndsBehind r := by
  have hoffset := s.offset.toNat_lt
  have hsize := s.size.toNat_lt
  have hstart := r.offset.toNat_lt
  have hlength := r.size.toNat_lt
  rw [Section.inter_nonempty_iff hs hr, Section.EndsBehind, overlaps, Bool.and_eq_true,
    decide_eq_true_iff, decide_eq_true_iff, UInt64.lt_iff_toNat_lt, UInt64.lt_iff_toNat_lt,
    UInt64.toNat_add, UInt64.toNat_add, UInt32.toNat_toUInt64, UInt32.toNat_toUInt64,
    UInt32.toNat_toUInt64, Nat.mod_eq_of_lt (by omega : r.offset.toNat + r.size.toNat < 2 ^ 64)]
  -- the end of the section wraps around at most once
  rcases lt_or_ge (s.offset.toNat + s.size.toNat) (2 ^ 64) with hfits | hwraps
  · rw [Nat.mod_eq_of_lt hfits]
    omega
  · rw [Nat.mod_eq_sub_mod hwraps, Nat.mod_eq_of_lt (by omega)]
    omega

namespace Image

/-- A command of the image encrypts a range, and the range has a byte of the section, which is not
just filled with zeros. -/
structure Seals (image : Image) (r : EncryptionRange) (s : Section) : Prop where
  stated : ∃ load ∈ image.loads, load.body = .encryption r
  system_ne : r.system ≠ 0
  range_pos : 0 < r.size.toNat
  filled : s.isZeroFill = false
  size_pos : 0 < s.size.toNat
  touches : (s.file ∩ r.file).Nonempty

variable {image : Image} {s : Section}

/-- The mark of a section tells whether a range touches it, as words are compared. -/
private theorem IsMarked.encrypted_iff (h : image.IsMarked) (hs : s ∈ image.sections) :
    s.encrypted = true ↔ ∃ r, image.Seals r s ∧ s.EndsBehind r := by
  have hpos : s.size ≠ 0 ↔ 0 < s.size.toNat := by
    rw [← UInt64.pos_iff_ne_zero, UInt64.lt_iff_toNat_lt]
    rfl
  rw [h s hs, Bool.and_eq_true, Bool.and_eq_true, Bool.not_eq_true', bne_iff_ne, hpos,
    List.any_eq_true]
  -- the mark is the code's own test, taken apart; `EndsBehind` is its comparison after wrapping
  constructor
  · rintro ⟨⟨hfilled, hsize⟩, r, hr, hoverlaps⟩
    obtain ⟨hstated, hactive⟩ := mem_encryptionRanges_iff.1 hr
    obtain ⟨hsystem, hrange⟩ := EncryptionRange.isActive_iff.1 hactive
    obtain ⟨htouches, hends⟩ := (EncryptionRange.overlaps_iff hsize hrange).1 hoverlaps
    exact ⟨r, ⟨hstated, hsystem, hrange, hfilled, hsize, htouches⟩, hends⟩
  · rintro ⟨r, hseals, hends⟩
    have hactive := EncryptionRange.isActive_iff.2 ⟨hseals.system_ne, hseals.range_pos⟩
    have hoverlaps := (EncryptionRange.overlaps_iff hseals.size_pos hseals.range_pos).2
      ⟨hseals.touches, hends⟩
    exact ⟨⟨hseals.filled, hseals.size_pos⟩, r,
      mem_encryptionRanges_iff.2 ⟨hseals.stated, hactive⟩, hoverlaps⟩

/-- A section of an opened image is marked as encrypted if an encrypted range has one of its bytes
and the end of the section does not deceive the comparison with that range. So no section is marked
without need, and every section whose end is a word is marked if it needs to be. The image counts as
encrypted if one of its sections is marked. -/
theorem encrypted_iff_seals {source : Array UInt8} {told : Option Nat} {bounds : SliceBounds}
    (hopen : ofSlice source told bounds = .ok image) :
    (∀ s ∈ image.sections, s.encrypted = true ↔ ∃ r, image.Seals r s ∧ s.EndsBehind r) ∧
      (∀ s ∈ image.sections, s.offset.toNat + s.size.toNat < 2 ^ 64 →
        (s.encrypted = true ↔ ∃ r, image.Seals r s)) ∧
      (image.isEncrypted = true ↔
        ∃ s ∈ image.sections, ∃ r, image.Seals r s ∧ s.EndsBehind r) := by
  obtain ⟨-, -, hmarked⟩ := ofSlice_eq_ok hopen
  refine ⟨fun s hs => hmarked.encrypted_iff hs, fun s hs hfits => ?_, ?_⟩
  · rw [hmarked.encrypted_iff hs]
    exact exists_congr fun r => and_iff_left (.inl hfits)
  · rw [isEncrypted, List.any_eq_true]
    exact exists_congr fun s => and_congr_right fun hs => hmarked.encrypted_iff hs

/-- The header of an image with two load commands. -/
private def shadedHeader : FileHeader :=
  ⟨Magic.image64, 0x0100000C, 0, FileType.dylib, 2, 176, 0, 0⟩

/-- A segment with a section that states a size, from the offset 208 on, and sixteen encrypted bytes
which start there. -/
private def shadedCommands (size : UInt64) : Text :=
  let words (ns : List UInt32) := ns.flatMap ByteOrder.big.bytes32
  let wide (ns : List UInt64) := ns.flatMap ByteOrder.big.bytes64
  words [0x19, 152] ++ List.replicate 16 0 ++ wide [0x1000, 0x1000, 0, 224] ++ words [1, 1, 1, 0] ++
    List.replicate 32 0 ++ wide [0x1000, size] ++ words [208, 0, 0, 0, 0, 0, 0, 0] ++
    words [0x2C, 24, 208, 16, 1, 0]

/-- A slice whose last sixteen bytes are encrypted. -/
private def shadedSlice (size : UInt64) : Array UInt8 :=
  (shadedHeader.encode .big ++ shadedCommands size ++ List.replicate 16 7).toArray

/-- The section of the slice, before it is marked. -/
private def shadedSection (size : UInt64) : Section :=
  { (default : Section) with addr := 0x1000, size, offset := 208 }

private theorem length_shadedCommands (size : UInt64) : (shadedCommands size).length = 176 := by
  simp [shadedCommands]

/-- The load commands tell how the section is marked. -/
private theorem ofSlice_shadedSlice {size : UInt64} {encrypted : Bool}
    (h : (Load.parseAll .big 2 0 32 (shadedCommands size)).toOption.map (fun found =>
        (markEncrypted found.1 found.2, encryptionRanges found.1)) =
      some ([{ shadedSection size with encrypted }], [⟨208, 16, 1⟩])) :
    ∃ image, ofSlice (shadedSlice size) (some 224) {} = .ok image ∧
      image.sections = [{ shadedSection size with encrypted }] ∧
      encryptionRanges image.loads = [⟨208, 16, 1⟩] := by
  obtain ⟨found, hparse, hfound⟩ := Option.map_eq_some_iff.1 h
  rw [Except.toOption_eq_some_iff] at hparse
  obtain ⟨hsections, hranges⟩ := Prod.mk.inj hfound
  have hroom : shadedHeader.size + (shadedCommands size).length ≤ sliceSize {} (some 224) := by
    rw [length_shadedCommands]
    decide
  have hopen := ofSlice_encode_append .big (.inr rfl : shadedHeader.IsImage)
    (length_shadedCommands size).symm (List.replicate 16 7) hroom
  have hplace : (shadedHeader.size : Int) = 32 := by decide
  rw [hplace] at hopen
  exact ⟨_, hopen.trans (congrArg _ hparse), hsections, hranges⟩

/-- A section that ends where the slice does is marked. -/
theorem encrypted_iff_seals_shadedSlice :
    ∃ image s, (ofSlice (shadedSlice 16) (some 224) {} = .ok image ∧ s ∈ image.sections ∧
      s.encrypted = true) ∧ ∃ r, image.Seals r s ∧ s.EndsBehind r := by
  obtain ⟨image, hopen, hsections, -⟩ :=
    ofSlice_shadedSlice
      (show _ = some ([{ shadedSection 16 with encrypted := true }], _) by decide +kernel)
  have hs : { shadedSection 16 with encrypted := true } ∈ image.sections := by simp [hsections]
  exact ⟨image, _, ⟨hopen, hs, rfl⟩, ((encrypted_iff_seals hopen).1 _ hs).1 rfl⟩

/-- A section whose end is no word escapes the mark, although the encrypted range consists of bytes
of the section. -/
theorem sealed_section_not_encrypted :
    ∃ image s r, ofSlice (shadedSlice 0xFFFFFFFFFFFFFFF0) (some 224) {} = .ok image ∧
      s ∈ image.sections ∧ image.Seals r s ∧ r.file ⊆ s.file ∧ s.encrypted = false ∧
      image.isEncrypted = false := by
  obtain ⟨image, hopen, hsections, hranges⟩ := ofSlice_shadedSlice
    (show _ = some ([{ shadedSection 0xFFFFFFFFFFFFFFF0 with encrypted := false }], _) by
      decide +kernel)
  obtain ⟨hstated, -⟩ := mem_encryptionRanges_iff.1
    (show ⟨208, 16, 1⟩ ∈ encryptionRanges image.loads by simp [hranges])
  have hwithin : EncryptionRange.file ⟨208, 16, 1⟩ ⊆
      (shadedSection 0xFFFFFFFFFFFFFFF0).file := Set.Ico_subset_Ico le_rfl (by decide)
  have hfirst : 208 ∈ EncryptionRange.file ⟨208, 16, 1⟩ := ⟨by decide, by decide⟩
  -- the size makes the end of the section wrap around to in front of the range
  refine ⟨image, shadedSection 0xFFFFFFFFFFFFFFF0, ⟨208, 16, 1⟩, hopen, ?_, ?_, hwithin, rfl, ?_⟩
  · rw [hsections]
    exact List.mem_singleton_self _
  · exact ⟨hstated, by decide, by decide, by decide, by decide, 208, hwithin hfirst, hfirst⟩
  · rw [isEncrypted, hsections]
    rfl

end Image

end ObjcLens
