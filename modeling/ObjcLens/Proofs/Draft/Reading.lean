import Mathlib
import ObjcLens.Proofs.Draft.File
import ObjcLens.Proofs.Image.Cstring

/-!
# Reading what was drafted

In an image that shows a draft, the bytes of the draft are read at their addresses: in pieces of
any size, as far as they lie in one slot.

## Main results

* `Shows.sectionAt?_place`: every byte of a slot lies in the section of the slot.
* `Shows.readAddr`: the bytes at an address are read.
* `Shows.cstring`: a text without zero bytes is read up to the zero byte behind it.
-/

namespace ObjcLens

namespace Draft

theorem base_toNat_le (d : Draft) : d.base.toNat ≤ 0x100000000 := by
  rw [base]
  split <;> decide

/-- Addresses do not wrap around. -/
theorem toNat_place (d : Draft) (slot index : Nat) (hslot : slot ≤ 11)
    (hindex : index ≤ slotSize) :
    (d.place slot index).toNat = d.base.toNat + slot * slotSize + index := by
  have hbase := d.base_toNat_le
  rw [slotSize] at hindex ⊢
  have hslots : (slot * slotSize).toUInt64.toNat = slot * 4096 :=
    UInt64.toNat_ofNat_of_lt' (by rw [slotSize, UInt64.size]; omega)
  have hindexes : index.toUInt64.toNat = index :=
    UInt64.toNat_ofNat_of_lt' (by rw [UInt64.size]; omega)
  rw [place, UInt64.toNat_add, UInt64.toNat_add, hslots, hindexes]
  omega

/-- The section is that of a slot with bytes in the file. -/
structure IsSlot (d : Draft) (slot : Nat) (s : Section) : Prop where
  addr_eq : s.addr = d.place slot 0
  size_eq : s.size.toNat = (d.stored slot).length
  offset_eq : s.offset.toNat = slot * slotSize
  isZeroFill_eq : s.isZeroFill = false
  encrypted_eq : s.encrypted = false

/-- A section of the empty draft with the bytes of its slot. -/
def filled (d : Draft) (s : DraftSection) : DraftSection := { s with contents := d.stored s.slot }

/-- The sections of a regular draft are those of an empty one with contents. -/
theorem sections_eq_map_filled {d : Draft} (hd : d.Regular) :
    d.sections = emptySections.map d.filled :=
  hd.sections_eq

/-- The size of a section is the number of bytes in its slot. -/
private theorem toNat_size_filled {d : Draft} (hd : d.Regular) {s : DraftSection}
    (hs : s ∈ emptySections) : (d.filled s).size.toNat = (d.stored s.slot).length := by
  have hall : ∀ s ∈ emptySections, s.fixedSize = 0 := by decide
  have hlength := hd.length_le s.slot
  have hsize : (d.filled s).size = (d.stored s.slot).length.toUInt64 := if_pos (hall s hs)
  rw [slotSize] at hlength
  rw [hsize]
  exact UInt64.toNat_ofNat_of_lt' (by rw [UInt64.size]; omega)

/-- A section has no size if its slot is empty. -/
theorem size_filled_eq_zero {d : Draft} (hd : d.Regular) {s : DraftSection}
    (hs : s ∈ emptySections) : (d.filled s).size = 0 ↔ d.stored s.slot = [] := by
  rw [← UInt64.toNat_inj, toNat_size_filled hd hs]
  exact List.length_eq_zero_iff

/-- The section of a slot in the image. -/
theorem isSlot_filled {d : Draft} (hd : d.Regular) {s : DraftSection} (hs : s ∈ emptySections)
    (hne : s.slot ≠ 11) : d.IsSlot s.slot (d.imageSection (d.filled s)) := by
  have hall : ∀ s ∈ emptySections, s.slot ≠ 11 → s.isZeroFill = false := by decide
  have hfilled : (d.filled s).isZeroFill = false := hall s hs hne
  have hmem : d.filled s ∈ d.sections :=
    sections_eq_map_filled hd ▸ List.mem_map_of_mem hs
  exact ⟨(UInt64.add_zero _).symm, toNat_size_filled hd hs,
    hd.fitting.offset_imageSection hmem hfilled,
    (hd.fitting.isZeroFill_imageSection hmem).trans hfilled, rfl⟩

/-- A section of the image is that of its slot. -/
theorem mem_imageSections {d : Draft} (hd : d.Regular) {s : Section} (hs : s ∈ d.imageSections) :
    ∃ slot ∈ List.range' 1 10, d.IsSlot slot s := by
  have hall : ∀ s ∈ emptySections, s.slot ∈ List.range' 1 11 := by decide
  rw [imageSections, sections_eq_map_filled hd, List.filter_map, List.map_map, List.mem_map] at hs
  obtain ⟨t, ht, rfl⟩ := hs
  obtain ⟨ht, hsize⟩ := List.mem_filter.1 ht
  have hne : t.slot ≠ 11 := by
    intro heq
    have hstored : d.stored t.slot = [] := by rw [heq, hd.bss_eq]
    exact of_decide_eq_true hsize ((size_filled_eq_zero hd ht).2 hstored)
  have hslot := List.mem_range'_1.1 (hall t ht)
  exact ⟨t.slot, List.mem_range'_1.2 (by omega), isSlot_filled hd ht hne⟩

/-- A slot with bytes has a section in the image. -/
theorem exists_mem_imageSections {d : Draft} (hd : d.Regular) {slot : Nat}
    (hslot : slot ∈ List.range' 1 10) (hne : d.stored slot ≠ []) :
    ∃ s ∈ d.imageSections, d.IsSlot slot s := by
  have hall : ∀ slot ∈ List.range' 1 10, ∃ t ∈ emptySections, t.slot = slot ∧ slot ≠ 11 := by
    decide
  obtain ⟨t, ht, rfl, hslot⟩ := hall slot hslot
  refine ⟨d.imageSection (d.filled t), List.mem_map.2 ⟨d.filled t, ?_, rfl⟩,
    isSlot_filled hd ht hslot⟩
  rw [List.mem_filter, sections_eq_map_filled hd]
  refine ⟨List.mem_map_of_mem ht, decide_eq_true ?_⟩
  rwa [Ne, size_filled_eq_zero hd ht]

end Draft

namespace Image

open Draft

variable {image : Image} {d : Draft}

/-- Every byte of a slot lies in the section of the slot. -/
theorem Shows.sectionAt?_place (h : image.Shows d) {slot : Nat} (index : Nat)
    (hslot : slot ∈ List.range' 1 10) (hindex : index < (d.stored slot).length) :
    ∃ s, image.sectionAt? (d.place slot index) = some s ∧ d.IsSlot slot s := by
  have hlengths := h.regular.length_le
  have hrange := List.mem_range'_1.1 hslot
  have hplace := toNat_place d slot index (by omega)
    (by have := hlengths slot; omega)
  have hcontains {other : Nat} (hother : other ∈ List.range' 1 10) {s : Section}
      (hs : d.IsSlot other s) :
      s.contains (d.place slot index) = true ↔ other = slot := by
    have hlength := hlengths other
    have hlength' := hlengths slot
    have hbase := d.base_toNat_le
    have hstart := toNat_place d other 0
      (by rw [List.mem_range'_1] at hother; omega) (by omega)
    rw [List.mem_range'_1] at hother
    rw [slotSize] at *
    rw [Section.contains_iff, hs.addr_eq, hs.size_eq, hstart, hplace]
    constructor
    · rintro ⟨hlow, hhigh, -⟩
      omega
    · rintro rfl
      omega
  obtain ⟨s, hs, hslotOf⟩ := exists_mem_imageSections h.regular hslot
    (List.length_pos_iff.1 (by omega))
  have hsome : (image.sectionAt? (d.place slot index)).isSome := by
    rw [sectionAt?, List.find?_isSome, h.sections_eq]
    exact ⟨s, hs, (hcontains hslot hslotOf).2 rfl⟩
  obtain ⟨found, hfound⟩ := Option.isSome_iff_exists.1 hsome
  refine ⟨found, hfound, ?_⟩
  rw [sectionAt?, h.sections_eq] at hfound
  obtain ⟨other, hother, hfoundSlot⟩ :=
    mem_imageSections h.regular (List.mem_of_find?_eq_some hfound)
  have hsame := (hcontains hother hfoundSlot).1 (by simpa using List.find?_some hfound)
  rwa [hsame] at hfoundSlot

/-- Nothing in the image is encrypted. -/
private theorem Shows.encryptionRanges_eq (h : image.Shows d) :
    encryptionRanges image.loads = [] := by
  refine List.filterMap_eq_nil_iff.2 fun load hload => ?_
  obtain ⟨segment, hbody⟩ := h.loads_eq load hload
  rw [hbody]

/-- The image has no chained fixups. -/
theorem Shows.fixupsRange?_eq (h : image.Shows d) : image.fixupsRange? = none := by
  refine List.findSome?_eq_none_iff.2 fun load hload => ?_
  obtain ⟨segment, hbody⟩ := h.loads_eq load hload
  rw [hbody]

/-- The bytes of a slot are read at their offset in the file. -/
theorem Shows.readAt (h : image.Shows d) {slot : Nat} (index count : Nat)
    (hslot : slot ∈ List.range' 1 10) (hcount : index + count ≤ (d.stored slot).length) :
    image.readAt (slot * slotSize + index : Nat) count =
      .ok (((d.stored slot).drop index).take count) := by
  have hlength : (((d.stored slot).drop index).take count).length = count := by
    rw [List.length_take, List.length_drop]
    omega
  have hslotLength := h.regular.length_le slot
  have hsize := h.size_eq
  have hrange := List.mem_range'_1.1 hslot
  rw [storedSlots, slotSize] at hsize
  rw [slotSize] at hslotLength
  -- a draft that shows its records has no encryption command, so no range can refuse the read
  rw [readAt_eq_ok_iff]
  refine ⟨by omega, by rw [slotSize]; omega, ?_, h.bytes_eq slot hslot index count hcount, hlength⟩
  rw [touchesEncrypted, h.encryptionRanges_eq]
  rfl

/-- An address in a slot leads to its offset in the file. -/
private theorem sectionOffset_place (hd : d.Regular) {slot index : Nat}
    (hslot : slot ∈ List.range' 1 10) (hindex : index ≤ (d.stored slot).length) {s : Section}
    (hs : d.IsSlot slot s) :
    sectionOffset s (d.place slot index) = (slot * slotSize + index : Nat) := by
  have hlength := hd.length_le slot
  have hbase := d.base_toNat_le
  rw [List.mem_range'_1] at hslot
  have hstart := toNat_place d slot 0 (by omega) (by omega)
  have hplace := toNat_place d slot index (by omega) (by omega)
  -- the offset and the address of a slot move together, so the file offset is the slot's own place
  have hnat :
      (s.offset.toUInt64 + (d.place slot index - s.addr)).toNat = slot * slotSize + index := by
    rw [UInt64.toNat_add, UInt64.toNat_sub_of_le, UInt32.toNat_toUInt64, hs.offset_eq, hs.addr_eq,
      hstart, hplace]
    · rw [slotSize] at *
      omega
    · rw [UInt64.le_iff_toNat_le, hs.addr_eq, hstart, hplace]
      omega
  rw [sectionOffset, signed64_of_lt, hnat]
  rw [hnat]
  rw [slotSize] at *
  omega

/-- A range of addresses lies in a readable section. -/
structure Reaches (image : Image) (s : Section) (addr : UInt64) (count : Nat) : Prop where
  sectionAt?_eq : image.sectionAt? addr = some s
  encrypted_eq : s.encrypted = false
  isZeroFill_eq : s.isZeroFill = false
  /-- The range does not wrap around. -/
  start_le : ¬ addr + count.toUInt64 < addr
  /-- The range does not reach beyond the section. -/
  stop_le : ¬ s.addr + s.size < addr + count.toUInt64

/-- Bytes of the draft lie in one section of the image, and are found in the file. -/
theorem Shows.exists_reaches (h : image.Shows d) {addr : UInt64} {bytes : Text} (hne : bytes ≠ [])
    (hbytes : d.HasBytes addr bytes) :
    ∃ s, image.Reaches s addr bytes.length ∧
      image.readAt (sectionOffset s addr) bytes.length = .ok bytes := by
  obtain ⟨slot, hslot, before, after, hstored, rfl⟩ := hbytes
  have hpos : 0 < bytes.length := List.length_pos_iff.2 hne
  have hlength : (d.stored slot).length = before.length + bytes.length + after.length := by
    rw [hstored, List.length_append, List.length_append]
  have hslotLength := h.regular.length_le slot
  have hbase := d.base_toNat_le
  obtain ⟨s, hsection, hs⟩ := h.sectionAt?_place before.length hslot (by omega)
  have hread := h.readAt before.length bytes.length hslot (by omega)
  rw [← sectionOffset_place h.regular hslot (by omega) hs, hstored, List.append_assoc,
    List.drop_left, List.take_left] at hread
  have hrange := List.mem_range'_1.1 hslot
  have hstart := toNat_place d slot 0 (by omega) (by omega)
  have hplace := toNat_place d slot before.length (by omega) (by omega)
  obtain ⟨-, hcontains⟩ := contains_of_sectionAt? hsection
  obtain ⟨-, -, hfits⟩ := Section.contains_iff.1 hcontains
  have hstop : (d.place slot before.length).toNat + bytes.length ≤ s.addr.toNat + s.size.toNat := by
    rw [hs.addr_eq, hs.size_eq, hstart, hplace]
    omega
  have hinside := mt (stop_le_iff _ (by omega) hfits).1 (not_not_intro hstop)
  rw [not_or] at hinside
  exact ⟨s, ⟨hsection, hs.encrypted_eq, hs.isZeroFill_eq, hinside.2, hinside.1⟩, hread⟩

/-- The bytes at an address are read. -/
theorem Shows.readAddr (h : image.Shows d) {addr : UInt64} {bytes : Text} (hne : bytes ≠ [])
    (hbytes : d.HasBytes addr bytes) : image.readAddr addr bytes.length = .ok bytes := by
  obtain ⟨s, hreaches, hread⟩ := h.exists_reaches hne hbytes
  have hinside : (decide (s.addr + s.size < addr + bytes.length.toUInt64) ||
      decide (addr + bytes.length.toUInt64 < addr)) = false := by
    rw [decide_eq_false hreaches.stop_le, decide_eq_false hreaches.start_le, Bool.or_self]
  simp only [Image.readAddr, hreaches.sectionAt?_eq, readSection, hreaches.encrypted_eq,
    hreaches.isZeroFill_eq, hinside, Bool.false_eq_true, if_false, hread]

/-- The section of a slot ends with the bytes of the slot. -/
private theorem Shows.endsWith_place (h : image.Shows d) {slot : Nat}
    (hslot : slot ∈ List.range' 1 10) {s : Section} (hs : d.IsSlot slot s) (index : Nat)
    (hindex : index ≤ (d.stored slot).length) :
    image.EndsWith s (d.place slot index) ((d.stored slot).drop index) := by
  have hlength := h.regular.length_le slot
  have hbase := d.base_toNat_le
  have hrange := List.mem_range'_1.1 hslot
  constructor
  -- from the place to the section's end there are as many bytes as the slot has left
  · have hstart := toNat_place d slot 0 (by omega) (by omega)
    have hplace := toNat_place d slot index (by omega) (by omega)
    rw [List.length_drop, UInt64.toNat_add, hs.addr_eq, hs.size_eq, hstart, hplace]
    rw [slotSize] at *
    omega
  · intro skip count hpos hcount
    rw [List.length_drop] at hcount
    have hread := h.readAt (index + skip) count hslot (by omega)
    rw [← sectionOffset_place h.regular hslot (by omega) hs] at hread
    rw [place_add, hread, List.drop_drop]

/-- A text without zero bytes is read up to the zero byte behind it. -/
theorem Shows.cstring (h : image.Shows d) {addr : UInt64} {text : Text} (hzero : 0 ∉ text)
    (hbytes : d.HasBytes addr (text ++ [0])) : image.cstring addr = .ok text := by
  obtain ⟨slot, hslot, before, after, hstored, rfl⟩ := hbytes
  rw [List.append_assoc, List.append_assoc, List.singleton_append] at hstored
  have hlength : (d.stored slot).length = before.length + (text ++ 0 :: after).length := by
    rw [hstored, List.length_append]
  have hpos : text.length < (text ++ 0 :: after).length := by simp
  obtain ⟨s, hsection, hs⟩ := h.sectionAt?_place before.length hslot (by omega)
  have hends := h.endsWith_place hslot hs before.length (by omega)
  rw [hstored, List.drop_left] at hends
  rw [cstring_of_endsWith hsection hs.encrypted_eq hs.isZeroFill_eq hends,
    if_pos List.mem_append_cons_self, untilZero_append hzero]
  exact congrArg Except.ok (List.append_nil text)

end Image

end ObjcLens
