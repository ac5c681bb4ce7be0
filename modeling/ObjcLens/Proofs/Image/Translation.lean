import ObjcLens.Proofs.Image.Stored

/-!
# Offsets and addresses

A segment maps a range of the file to a range of addresses, which may be longer. The file offset of
an address is looked up by the ranges of addresses, the address of a file offset by the ranges of
the file, and both take the first segment that fits. So the two are inverse only if it does not
matter which one comes first: in an image that is laid out well, the ranges are disjoint.

The way back from an offset to its address always works, as the range of addresses is the longer
one. The other way round it needs an address that has a byte in the file: the zeros behind the bytes
of a segment have offsets that may belong to the next segment, or to none.

## Main results

* `IsLaidOut.segmentAt?_eq_some_iff`, `IsLaidOut.find?_containsOffset_eq_some_iff`: the segment
  that is found is the only one that fits.
* `translations_inverse`: addresses and offsets lead back to each other.
-/

namespace ObjcLens

/-- The addresses of a segment. -/
def Segment.memory (s : Segment) : Set ℕ := Set.Ico s.addr.toNat (s.addr.toNat + s.memSize.toNat)

/-- The file offsets of a segment. None if it has no bytes in the file, whatever its offset is. -/
def Segment.file (s : Segment) : Set ℕ := Set.Ico s.offset.toNat (s.offset.toNat + s.fileSize.toNat)

instance (s : Segment) : DecidablePred (· ∈ s.memory) := fun _ => Set.decidableMemIco

instance (s : Segment) : DecidablePred (· ∈ s.file) := fun _ => Set.decidableMemIco

instance (s t : Segment) : Decidable (Disjoint s.memory t.memory) :=
  decidable_of_iff _ Set.Ico_disjoint_Ico.symm

instance (s t : Segment) : Decidable (Disjoint s.file t.file) :=
  decidable_of_iff _ Set.Ico_disjoint_Ico.symm

namespace Image

/-- The segments of an image are laid out well: neither their addresses nor their file offsets
overlap, the ends of all ranges are words, and no segment has more bytes than addresses. -/
structure IsLaidOut (image : Image) : Prop where
  memory_lt : ∀ s ∈ image.segments, s.addr.toNat + s.memSize.toNat < 2 ^ 64
  memory_disjoint : image.segments.Pairwise fun s t => Disjoint s.memory t.memory
  file_lt : ∀ s ∈ image.segments, s.offset.toNat + s.fileSize.toNat < 2 ^ 64
  file_disjoint : image.segments.Pairwise fun s t => Disjoint s.file t.file
  fileSize_le : ∀ s ∈ image.segments, s.fileSize ≤ s.memSize

/-! ## The segment that is found -/

/-- Two different segments have no number in common if the ranges of segments are disjoint. -/
theorem eq_of_mem_range {segments : List Segment} {range : Segment → Set ℕ}
    (hdisjoint : segments.Pairwise fun s t => Disjoint (range s) (range t)) {s t : Segment}
    (hs : s ∈ segments) (ht : t ∈ segments) {n : ℕ} (hsn : n ∈ range s) (htn : n ∈ range t) :
    s = t := by
  by_contra hne
  have : Std.Symm fun s t : Segment => Disjoint (range s) (range t) := ⟨fun _ _ h => h.symm⟩
  exact Set.disjoint_left.1 (hdisjoint.forall hs ht hne) hsn htn

/-- If the ranges of segments are disjoint, the first one that contains a number is the only
one. -/
private theorem find?_eq_some_iff_mem_range {segments : List Segment} {range : Segment → Set ℕ}
    (hdisjoint : segments.Pairwise fun s t => Disjoint (range s) (range t)) {n : ℕ}
    {contains : Segment → Bool} (hcontains : ∀ s ∈ segments, contains s = true ↔ n ∈ range s)
    {s : Segment} : segments.find? contains = some s ↔ s ∈ segments ∧ n ∈ range s := by
  constructor
  · intro h
    have hs := List.mem_of_find?_eq_some h
    exact ⟨hs, (hcontains s hs).1 (List.find?_some h)⟩
  · rintro ⟨hs, hn⟩
    have hsome : (segments.find? contains).isSome := by
      rw [List.find?_isSome]
      exact ⟨s, hs, (hcontains s hs).2 hn⟩
    obtain ⟨t, ht⟩ := Option.isSome_iff_exists.1 hsome
    have htmem := List.mem_of_find?_eq_some ht
    have htn := (hcontains t htmem).1 (List.find?_some ht)
    rw [ht, eq_of_mem_range hdisjoint htmem hs htn hn]

variable {image : Image} {s : Segment} {addr offset : UInt64}

/-- In a layout without overflow, a segment contains the addresses of its memory. -/
theorem IsLaidOut.contains_iff (h : image.IsLaidOut) (hs : s ∈ image.segments) :
    s.contains addr = true ↔ addr.toNat ∈ s.memory := by
  rw [Segment.contains_iff, ← and_assoc]
  exact and_iff_left (h.memory_lt s hs)

/-- In a layout without overflow, a segment contains the offsets of its bytes. -/
theorem IsLaidOut.containsOffset_iff (h : image.IsLaidOut) (hs : s ∈ image.segments) :
    s.containsOffset offset = true ↔ offset.toNat ∈ s.file := by
  rw [Segment.containsOffset_iff, ← and_assoc]
  exact and_iff_left (h.file_lt s hs)

/-- The segment of an address is the one that has the address. -/
theorem IsLaidOut.segmentAt?_eq_some_iff (h : image.IsLaidOut) :
    image.segmentAt? addr = some s ↔ s ∈ image.segments ∧ addr.toNat ∈ s.memory :=
  find?_eq_some_iff_mem_range h.memory_disjoint fun _ hs => h.contains_iff hs

/-- The segment of a file offset is the one that has the offset. -/
theorem IsLaidOut.find?_containsOffset_eq_some_iff (h : image.IsLaidOut) :
    image.segments.find? (·.containsOffset offset) = some s ↔
      s ∈ image.segments ∧ offset.toNat ∈ s.file :=
  find?_eq_some_iff_mem_range h.file_disjoint fun _ hs => h.containsOffset_iff hs

/-! ## Both ways -/

/-- What is some bytes behind one word is as many bytes behind another one. -/
private theorem mem_Ico_of_shift {source target word size : UInt64} {room : ℕ}
    (hword : word.toNat ∈ Set.Ico source.toNat (source.toNat + size.toNat))
    (hsize : size.toNat ≤ room) (hfits : target.toNat + room < 2 ^ 64) :
    (word - source + target).toNat ∈ Set.Ico target.toNat (target.toNat + room) := by
  obtain ⟨hlow, hhigh⟩ := hword
  have hdistance : (word - source).toNat = word.toNat - source.toNat :=
    UInt64.toNat_sub_of_le _ _ (UInt64.le_iff_toNat_le.2 hlow)
  rw [UInt64.toNat_add, hdistance, Nat.mod_eq_of_lt (by omega), Set.mem_Ico]
  omega

/-- Going from one range to another and back leads to the same word. -/
private theorem shift_shift (source target word : UInt64) :
    word - source + target - target + source = word := by
  rw [UInt64.add_sub_cancel, UInt64.sub_add_cancel]

/-- An address has an offset if and only if it is in the memory of a segment. -/
theorem IsLaidOut.offsetOf_eq_ok_iff (h : image.IsLaidOut) :
    image.offsetOf addr = .ok offset ↔
      ∃ s ∈ image.segments, addr.toNat ∈ s.memory ∧ offset = addr - s.addr + s.offset := by
  rw [offsetOf]
  constructor
  · intro hoffset
    split at hoffset
    · rename_i s hfound
      obtain ⟨hs, haddr⟩ := h.segmentAt?_eq_some_iff.1 hfound
      exact ⟨s, hs, haddr, (Except.ok.inj hoffset).symm⟩
    · cases hoffset
  · rintro ⟨s, hs, haddr, rfl⟩
    rw [h.segmentAt?_eq_some_iff.2 ⟨hs, haddr⟩]

/-- An offset has an address if and only if it is among the bytes of a segment. -/
theorem IsLaidOut.addressOf_eq_ok_iff (h : image.IsLaidOut) :
    image.addressOf offset = .ok addr ↔
      ∃ s ∈ image.segments, offset.toNat ∈ s.file ∧ addr = offset - s.offset + s.addr := by
  rw [addressOf]
  constructor
  · intro haddr
    split at haddr
    · rename_i s hfound
      obtain ⟨hs, hoffset⟩ := h.find?_containsOffset_eq_some_iff.1 hfound
      exact ⟨s, hs, hoffset, (Except.ok.inj haddr).symm⟩
    · cases haddr
  · rintro ⟨s, hs, hoffset, rfl⟩
    rw [h.find?_containsOffset_eq_some_iff.2 ⟨hs, hoffset⟩]

/-- An address has no offset if and only if it is in the memory of no segment. -/
theorem IsLaidOut.offsetOf_eq_error_iff (h : image.IsLaidOut) {e : Error} :
    image.offsetOf addr = .error e ↔
      e = .unmappedAddress addr ∧ ∀ s ∈ image.segments, addr.toNat ∉ s.memory := by
  have hnone : image.segmentAt? addr = none ↔ ∀ s ∈ image.segments, addr.toNat ∉ s.memory := by
    rw [segmentAt?, List.find?_eq_none]
    exact forall₂_congr fun s hs => not_congr (h.contains_iff hs)
  rw [offsetOf, ← hnone]
  cases image.segmentAt? addr <;> simp [eq_comm]

/-- An offset has no address if and only if it is among the bytes of no segment. -/
theorem IsLaidOut.addressOf_eq_error_iff (h : image.IsLaidOut) {e : Error} :
    image.addressOf offset = .error e ↔
      e = .unmappedOffset offset ∧ ∀ s ∈ image.segments, offset.toNat ∉ s.file := by
  have hnone : image.segments.find? (·.containsOffset offset) = none ↔
      ∀ s ∈ image.segments, offset.toNat ∉ s.file := by
    rw [List.find?_eq_none]
    exact forall₂_congr fun s hs => not_congr (h.containsOffset_iff hs)
  rw [addressOf, ← hnone]
  cases image.segments.find? (·.containsOffset offset) <;> simp [eq_comm]

/-- In an image that is laid out well, offsets and addresses lead back to each other. From an offset
the way back always works. From an address it works if its place in its segment has a byte in the
file. Nothing is refused but an address that no segment has, and an offset that no segment has in
the file. -/
theorem translations_inverse (h : image.IsLaidOut) :
    (∀ offset addr, image.addressOf offset = .ok addr → image.offsetOf addr = .ok offset) ∧
      (∀ s ∈ image.segments, ∀ addr : UInt64, addr.toNat ∈ s.memory → addr - s.addr < s.fileSize →
        ∀ offset, image.offsetOf addr = .ok offset → image.addressOf offset = .ok addr) ∧
      (∀ addr e, image.offsetOf addr = .error e ↔
        e = .unmappedAddress addr ∧ ∀ s ∈ image.segments, addr.toNat ∉ s.memory) ∧
      (∀ offset e, image.addressOf offset = .error e ↔
        e = .unmappedOffset offset ∧ ∀ s ∈ image.segments, offset.toNat ∉ s.file) := by
  refine ⟨?_, ?_, fun _ _ => h.offsetOf_eq_error_iff, fun _ _ => h.addressOf_eq_error_iff⟩
  · intro offset addr haddr
    obtain ⟨s, hs, hoffset, rfl⟩ := h.addressOf_eq_ok_iff.1 haddr
    -- the addresses of the segment are at least as many as its bytes in the file
    have hmemory : (offset - s.offset + s.addr).toNat ∈ s.memory :=
      mem_Ico_of_shift hoffset (UInt64.le_iff_toNat_le.1 (h.fileSize_le s hs)) (h.memory_lt s hs)
    rw [h.offsetOf_eq_ok_iff]
    exact ⟨s, hs, hmemory, (shift_shift s.offset s.addr offset).symm⟩
  · intro s hs addr haddr hstored offset hoffset
    have hfound : image.offsetOf addr = .ok (addr - s.addr + s.offset) :=
      h.offsetOf_eq_ok_iff.2 ⟨s, hs, haddr, rfl⟩
    obtain rfl : addr - s.addr + s.offset = offset := Except.ok.inj (hfound.symm.trans hoffset)
    have hlow : s.addr.toNat ≤ addr.toNat := haddr.1
    have hfile : (addr - s.addr + s.offset).toNat ∈ s.file := by
      rw [UInt64.lt_iff_toNat_lt,
        UInt64.toNat_sub_of_le _ _ (UInt64.le_iff_toNat_le.2 hlow)] at hstored
      have hinside : addr.toNat ∈ Set.Ico s.addr.toNat (s.addr.toNat + s.fileSize.toNat) :=
        ⟨hlow, by omega⟩
      exact mem_Ico_of_shift hinside le_rfl (h.file_lt s hs)
    rw [h.addressOf_eq_ok_iff]
    exact ⟨s, hs, hfile, (shift_shift s.addr s.offset addr).symm⟩

/-- An image with four segments: one that has no bytes, code, data that ends with zeros, and a last
one that starts in the file where the bytes of the data end. -/
def fourSegments : Image :=
  { (default : Image) with
    loads := [(0, 0x1000, 0, 0), (0x1000, 0x1000, 0, 0x1000), (0x2000, 0x800, 0x1000, 0x400),
      (0x3000, 0x1000, 0x1400, 0x300)].map fun (addr, memSize, offset, fileSize) =>
        { code := .segment64, raw := [],
          body := .segment { (default : Segment) with addr, memSize, offset, fileSize } } }

/-- The last byte of the data and the zero behind it. The zero has an offset that leads to the last
segment. -/
theorem translations_inverse_fourSegments :
    (fourSegments.IsLaidOut ∧ fourSegments.addressOf 0x13FF = .ok 0x23FF ∧
        fourSegments.offsetOf 0x2400 = .ok 0x1400 ∧ fourSegments.addressOf 0x1400 = .ok 0x3000) ∧
      fourSegments.offsetOf 0x23FF = .ok 0x13FF ∧
      fourSegments.offsetOf 0x4000 = .error (.unmappedAddress 0x4000) := by
  have hlaid : fourSegments.IsLaidOut :=
    ⟨by decide, by decide, by decide, by decide, by decide⟩
  obtain ⟨hback, -, haddress, -⟩ := translations_inverse hlaid
  refine ⟨⟨hlaid, rfl, rfl, rfl⟩, hback 0x13FF 0x23FF rfl, ?_⟩
  exact (haddress 0x4000 _).2 ⟨rfl, by decide⟩

end Image

end ObjcLens
