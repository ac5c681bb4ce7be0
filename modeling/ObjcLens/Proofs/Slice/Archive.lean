import Mathlib
import ObjcLens.Draft.Encode
import ObjcLens.Proofs.Image.Written
import ObjcLens.Proofs.Slice.Isolation

/-!
# Archives are read back

An archive starts with a table of its slices. The images follow at multiples of the page size, each
with zeros up to the next one. What is read back is the table as it was written (`Archive.listing`),
and each slice of it shows its own image, as if that were a file of its own.

## Main results

* `Slice.readRecords_append`: a table of slices is read back.
* `Archive.forall₂_holds_listing`: the slices hold the images.
* `Archive.ofContents_encode`: an archive is read back as it was written.
-/

namespace ObjcLens

private theorem toNat_toUInt32 {n : Nat} (h : n < 2 ^ 32) : n.toUInt32.toNat = n :=
  UInt32.toNat_ofNat_of_lt' h

namespace Slice

@[simp]
theorem length_record (s : Slice) : s.record.length = recordSize := by
  simp [record, recordSize]

/-- A slice is read back from its record. -/
theorem ofRecord_record (s : Slice) : ofRecord s.record = s := by
  simp [ofRecord, record, List.drop_append, List.drop_eq_nil_of_le]

/-- The slice is not empty and ends within the file, if its end is known. -/
structure Fits (limit : Option Nat) (s : Slice) : Prop where
  size_ne_zero : s.size ≠ 0
  stop_le : ∀ n ∈ limit, s.offset.toNat + s.size.toNat ≤ n

/-- The slices are for different architectures. -/
def Differ (s t : Slice) : Prop := (s.cpu, s.sub) ≠ (t.cpu, t.sub)

/-- A slice that fits and differs from those before it passes the check. -/
theorem check_eq_ok {limit : Option Nat} {seen : List Slice} {s : Slice} (hfits : s.Fits limit)
    (hseen : ∀ other ∈ seen, other.Differ s) (place : Nat) : check limit seen place s = .ok () := by
  have hlimit : limit.any (· < s.offset.toNat + s.size.toNat) = false := by
    cases limit with
    | none => rfl
    | some n => simpa using hfits.stop_le n rfl
  have hnone : (seen.any fun other => other.cpu = s.cpu && other.sub = s.sub) = false := by
    simpa [Differ] using hseen
  simp only [check, if_neg hfits.size_ne_zero, hlimit, hnone, Bool.false_eq_true, if_false]
  rfl

/-- Slices for different architectures are read back from their records, one behind the other. -/
theorem readRecords_append {limit : Option Nat} {found seen : List Slice}
    (hfits : ∀ s ∈ found, s.Fits limit) (hdiffer : found.Pairwise Differ)
    (hseen : ∀ s ∈ found, ∀ other ∈ seen, other.Differ s) (before after : Text) :
    readRecords (before ++ found.flatMap record ++ after).toArray limit found.length seen
      before.length = .ok found := by
  induction found generalizing seen before with
  | nil => rfl
  | cons s rest ih =>
    rw [List.forall_mem_cons] at hfits hseen
    rw [List.pairwise_cons] at hdiffer
    have hfile : before ++ (s :: rest).flatMap record ++ after =
        before ++ s.record ++ rest.flatMap record ++ after := by simp
    have hbytes : Image.bytesAt (before ++ s.record ++ rest.flatMap record ++ after).toArray
        before.length recordSize = s.record := by
      rw [Image.bytesAt_toArray, List.append_assoc, List.append_assoc, List.drop_left,
        ← s.length_record, List.take_left]
    have hseen' : ∀ t ∈ rest, ∀ other ∈ s :: seen, other.Differ t := by
      intro t ht other hother
      rcases List.mem_cons.1 hother with rfl | hother
      · exact hdiffer.1 t ht
      · exact hseen.2 t ht other hother
    have hrest := ih hfits.2 hdiffer.2 hseen' (before ++ s.record)
    rw [List.length_append, length_record] at hrest
    rw [hfile, List.length_cons, readRecords]
    simp only [hbytes, length_record, Nat.lt_irrefl, if_false, ofRecord_record,
      check_eq_ok hfits.1 hseen.1, hrest]
    rfl

/-- The magic number of an archive, the number of its slices and their records. -/
def table (slices : List Slice) : Text :=
  ByteOrder.big.bytes32 archiveMagic ++ ByteOrder.big.bytes32 slices.length.toUInt32 ++
    slices.flatMap record

theorem length_table (slices : List Slice) :
    (table slices).length = headerSize + recordSize * slices.length := by
  have hrecords : (slices.flatMap record).length = recordSize * slices.length := by
    simp [List.length_flatMap, Nat.mul_comm]
  rw [table, List.length_append, List.length_append, hrecords]
  simp [headerSize]

/-- A table of slices at the start of a file is read back. -/
theorem ofContents_table_append {limit : Option Nat} {slices : List Slice} (hne : slices ≠ [])
    (hcount : slices.length ≤ maxCount) (hfits : ∀ s ∈ slices, s.Fits limit)
    (hdiffer : slices.Pairwise Differ) (after : Text) :
    ofContents (table slices ++ after).toArray limit = .ok slices := by
  have hmagic : Image.bytesAt (table slices ++ after).toArray 0 4 =
      ByteOrder.big.bytes32 archiveMagic := by
    refine (Image.bytesAt_toArray _ 0 4).trans ?_
    simp [table]
  have hnumber : Image.bytesAt (table slices ++ after).toArray 4 4 =
      ByteOrder.big.bytes32 slices.length.toUInt32 := by
    refine (Image.bytesAt_toArray _ 4 4).trans ?_
    simp [table]
  have hpos := List.length_pos_iff.2 hne
  have hlength : slices.length.toUInt32.toNat = slices.length := by
    rw [maxCount] at hcount
    exact toNat_toUInt32 (by omega)
  have hunseen : ∀ s ∈ slices, ∀ other ∈ ([] : List Slice), other.Differ s := by simp
  have hrecords := readRecords_append hfits hdiffer hunseen
    (ByteOrder.big.bytes32 archiveMagic ++ ByteOrder.big.bytes32 slices.length.toUInt32) after
  rw [List.length_append, ByteOrder.length_bytes32, ByteOrder.length_bytes32] at hrecords
  -- the magic is an archive's, so there is no attempt to read the file as a single image
  rw [ofContents_eq_ofArchive _ (by rw [hmagic, ByteOrder.word32_bytes32_self])]
  simp only [ofArchive, hmagic, hnumber, ByteOrder.length_bytes32, ByteOrder.word32_bytes32_self,
    hlength, Nat.lt_irrefl, if_false, ne_eq, not_true, Nat.not_lt.2 hcount, hpos.ne']
  exact hrecords

end Slice

/-- The offset of a slice in its file makes no difference to its image, which keeps it. -/
theorem Image.ofContents_eq_map (contents : Array UInt8) (size : Nat) (offset offset' : Int) :
    ofContents contents size offset' =
      (ofContents contents size offset).map fun opened => { opened with offset := offset' } := by
  unfold ofContents
  cases identify (bytesAt contents 0 4) with
  | none => rfl
  | some found =>
    dsimp only
    cases readAll contents size 0 (headerLength found.2) with
    | error e => rfl
    | ok bytes =>
      simp only [Except.ok_bind]
      cases readAll contents size (headerLength found.2) _ with
      | error e => rfl
      | ok block =>
        simp only [Except.ok_bind]
        cases Load.parseAll _ _ _ _ _ <;> rfl

namespace Archive

/-! ## Padding -/

/-- Padding only adds. -/
theorem le_paddedSize (n : Nat) : n ≤ paddedSize n := by
  unfold paddedSize
  omega

theorem paddedSize_of_le {n : Nat} (hpos : 0 < n) (hle : n ≤ 0x1000) : paddedSize n = 0x1000 := by
  unfold paddedSize
  omega

@[simp]
theorem length_pad (bytes : Text) : (pad bytes).length = paddedSize bytes.length := by
  have hle := le_paddedSize bytes.length
  rw [pad, List.length_append, List.length_replicate]
  omega

/-! ## The table -/

/-- The slices of an archive, whose images lie one behind the other from an offset on. -/
def listing : Nat → List (CpuType × CpuSubtype × Text) → List Slice
  | _, [] => []
  | offset, (cpu, sub, bytes) :: rest =>
    ⟨cpu, sub, offset.toUInt32, bytes.length.toUInt32, alignment⟩ ::
      listing (offset + paddedSize bytes.length) rest

/-- The records of an archive are those of its listing. -/
theorem records_eq (offset : Nat) (images : List (CpuType × CpuSubtype × Text)) :
    records offset images = (listing offset images).flatMap Slice.record := by
  induction images generalizing offset with
  | nil => rfl
  | cons image rest ih => rw [records, listing, List.flatMap_cons, ih]

@[simp]
theorem length_listing (offset : Nat) (images : List (CpuType × CpuSubtype × Text)) :
    (listing offset images).length = images.length := by
  induction images generalizing offset with
  | nil => rfl
  | cons image rest ih => rw [listing, List.length_cons, List.length_cons, ih]

/-- The images with their padding, one behind the other. -/
def bodies (images : List (CpuType × CpuSubtype × Text)) : Text :=
  images.flatMap fun image => pad image.2.2

/-- An archive is its padded table and then its images. -/
theorem encode_eq (images : List (CpuType × CpuSubtype × Text)) :
    encode images = pad (Slice.table (listing 0x1000 images)) ++ bodies images := by
  simp [encode, Slice.table, bodies, records_eq]

/-- The table takes one page. -/
theorem length_pad_table {slices : List Slice} (hcount : slices.length ≤ Slice.maxCount) :
    (pad (Slice.table slices)).length = 0x1000 := by
  rw [Slice.maxCount] at hcount
  rw [length_pad, Slice.length_table, Slice.headerSize, Slice.recordSize]
  exact paddedSize_of_le (by omega) (by omega)

/-! ## The slices -/

/-- The slice shows the image with its architecture, as if it were a file of its own. -/
structure Holds (file : Contents) (s : Slice) (image : CpuType × CpuSubtype × Text) : Prop where
  cpu_eq : s.cpu = image.1
  sub_eq : s.sub = image.2.1
  size_ne_zero : s.size ≠ 0
  stop_le : s.offset.toNat + s.size.toNat ≤ file.size
  bytes_eq : s.bytes file = image.2.2.toArray
  image_eq : s.image file =
    (Image.ofSlice image.2.2.toArray (some image.2.2.length) {}).map fun opened =>
      { opened with offset := s.offset.toNat }

/-- A stretch of a file shows its bytes, and the image in them. -/
theorem holds_of_stretch {cpu : CpuType} {sub : CpuSubtype} {bytes file : Text}
    (before after : Text) (hfile : file = before ++ bytes ++ after) (hsize : file.length < 2 ^ 32)
    (hbytes : bytes ≠ []) (align : UInt32) :
    Holds file.toArray ⟨cpu, sub, before.length.toUInt32, bytes.length.toUInt32, align⟩
      (cpu, sub, bytes) := by
  subst hfile
  rw [List.length_append, List.length_append] at hsize
  have hpos := List.length_pos_iff.2 hbytes
  have hoffset : before.length.toUInt32.toNat = before.length :=
    toNat_toUInt32 (by omega)
  have hlength : bytes.length.toUInt32.toNat = bytes.length :=
    toNat_toUInt32 (by omega)
  have hshown : Slice.bytes ⟨cpu, sub, before.length.toUInt32, bytes.length.toUInt32, align⟩
      (before ++ bytes ++ after).toArray = bytes.toArray := by
    simp only [Slice.bytes, hoffset, hlength]
    simp [List.extract_eq_take_drop]
  refine ⟨rfl, rfl, fun hzero => ?_, ?_, hshown, ?_⟩
  · have hzero : bytes.length.toUInt32.toNat = 0 := congrArg UInt32.toNat hzero
    omega
  · simp only [hoffset, hlength, List.size_toArray, List.length_append]
    omega
  -- a slice of a stated size reads like a file of that size; only the offset it reports differs
  · have hinside : Image.sliceSize ⟨before.length, bytes.length⟩ (some bytes.length) =
        Image.sliceSize {} (some bytes.length) := by
      simp [Image.sliceSize]
    simp only [Slice.image, hshown, hoffset, hlength, Image.ofSlice_eq_ofContents, hinside]
    exact Image.ofContents_eq_map _ _ _ _

/-- The slices of an archive hold its images. -/
theorem forall₂_holds_listing {images : List (CpuType × CpuSubtype × Text)} {file : Text}
    (hbytes : ∀ image ∈ images, image.2.2 ≠ []) (hsize : file.length < 2 ^ 32) (before : Text)
    (hfile : file = before ++ bodies images) :
    List.Forall₂ (Holds file.toArray) (listing before.length images) images := by
  induction images generalizing before with
  | nil => exact .nil
  | cons image rest ih =>
    obtain ⟨cpu, sub, bytes⟩ := image
    rw [List.forall_mem_cons] at hbytes
    have hrest := ih hbytes.2 (before ++ pad bytes) (by simp [hfile, bodies])
    rw [List.length_append, length_pad] at hrest
    refine .cons (holds_of_stretch before (List.replicate (paddedSize bytes.length - bytes.length) 0
      ++ bodies rest) ?_ hsize hbytes.1 _) hrest
    simp [hfile, bodies, pad]

/-- The slices lie one behind the other. -/
theorem pairwise_listing {images : List (CpuType × CpuSubtype × Text)} {offset : Nat}
    (hsize : offset + (bodies images).length < 2 ^ 32) :
    (∀ s ∈ listing offset images, offset ≤ s.offset.toNat) ∧
      (listing offset images).Pairwise fun s t =>
        s.offset.toNat + s.size.toNat ≤ t.offset.toNat := by
  induction images generalizing offset with
  | nil => simp [listing]
  | cons image rest ih =>
    obtain ⟨cpu, sub, bytes⟩ := image
    have hlength : (bodies ((cpu, sub, bytes) :: rest)).length =
        paddedSize bytes.length + (bodies rest).length := by simp [bodies]
    have hle := le_paddedSize bytes.length
    rw [hlength] at hsize
    -- the table is written in words of 32 bits; nothing wraps around while the file fits them
    have hroom : offset + paddedSize bytes.length + (bodies rest).length < 2 ^ 32 := by omega
    obtain ⟨hbehind, hpairwise⟩ := ih hroom
    have hoffset : offset.toUInt32.toNat = offset := toNat_toUInt32 (by omega)
    have hbytes : bytes.length.toUInt32.toNat = bytes.length :=
      toNat_toUInt32 (by omega)
    refine ⟨List.forall_mem_cons.2 ⟨hoffset.ge, fun s hs => ?_⟩,
      List.pairwise_cons.2 ⟨fun s hs => ?_, hpairwise⟩⟩
    · have := hbehind s hs
      omega
    · have := hbehind s hs
      simp only [hoffset, hbytes]
      omega

/-- The architectures in the table are those of the images. -/
theorem pairwise_differ_listing {images : List (CpuType × CpuSubtype × Text)}
    (h : (images.map fun image => (image.1, image.2.1)).Nodup) (offset : Nat) :
    (listing offset images).Pairwise Slice.Differ := by
  have hkeys : (listing offset images).map (fun s => (s.cpu, s.sub)) =
      images.map fun image => (image.1, image.2.1) := by
    clear h
    induction images generalizing offset with
    | nil => rfl
    | cons image rest ih =>
      rw [listing, List.map_cons, List.map_cons, ih]
  rw [← hkeys] at h
  have hpairwise := List.pairwise_map.1 h
  exact hpairwise

/-- An archive is read back as it was written: up to 128 images, none of them empty and each for an
architecture of its own, if the table and the images with all their padding are shorter than
2^32 bytes. There is a slice for every image in order. The slices lie in the file one behind the
other, and show the images as if they were files of their own. -/
theorem ofContents_encode {images : List (CpuType × CpuSubtype × Text)} {limit : Option Nat}
    (hne : images ≠ []) (hcount : images.length ≤ Slice.maxCount)
    (hbytes : ∀ image ∈ images, image.2.2 ≠ [])
    (hdistinct : (images.map fun image => (image.1, image.2.1)).Nodup)
    (hsize : (encode images).length < 2 ^ 32)
    (hlimit : ∀ n ∈ limit, (encode images).length ≤ n) :
    ∃ slices, Slice.ofContents (encode images).toArray limit = .ok slices ∧
      List.Forall₂ (Holds (encode images).toArray) slices images ∧
      slices.Pairwise fun s t => s.offset.toNat + s.size.toNat ≤ t.offset.toNat := by
  have hlisted : (listing 0x1000 images).length ≤ Slice.maxCount := by rwa [length_listing]
  have hpage := length_pad_table hlisted
  have hholds := forall₂_holds_listing hbytes hsize _ (encode_eq images)
  rw [hpage] at hholds
  have hroom : 0x1000 + (bodies images).length < 2 ^ 32 := by
    rwa [encode_eq, List.length_append, hpage] at hsize
  refine ⟨listing 0x1000 images, ?_, hholds, (pairwise_listing hroom).2⟩
  have hfits : ∀ s ∈ listing 0x1000 images, s.Fits limit := by
    intro s hs
    obtain ⟨image, -, hheld⟩ := hholds.exists_of_mem hs
    refine ⟨hheld.size_ne_zero, fun n hn => hheld.stop_le.trans ?_⟩
    rw [List.size_toArray]
    exact hlimit n hn
  rw [encode_eq, pad, List.append_assoc]
  refine Slice.ofContents_table_append (fun hnil => hne ?_) hlisted hfits
    (pairwise_differ_listing hdistinct _) _
  rw [← List.length_eq_zero_iff, ← length_listing 0x1000 images, hnil, List.length_nil]

/-- Two images, of which the first fills its page. -/
private def twoImages : List (CpuType × CpuSubtype × Text) :=
  [(CpuType.arm64, 0, List.replicate 0x1000 7), (CpuType.x86_64, 3, [1, 2, 3])]

/-- The size of the file with two images is known. -/
theorem ofContents_encode_twoImages :
    ∃ slices, Slice.ofContents (encode twoImages).toArray (some 0x3000) = .ok slices ∧
      List.Forall₂ (Holds (encode twoImages).toArray) slices twoImages ∧
      slices.Pairwise fun s t => s.offset.toNat + s.size.toNat ≤ t.offset.toNat := by
  have hlength : (encode twoImages).length = 0x3000 := by
    rw [encode_eq, List.length_append, length_pad_table (by rw [length_listing]; decide)]
    simp [bodies, twoImages, paddedSize, -List.reduceReplicate]
  refine ofContents_encode (by decide) (by decide) ?_ (by decide) (by omega) ?_
  · simp [twoImages, -List.reduceReplicate]
  · rintro n hn
    obtain rfl := Option.some.inj hn
    exact hlength.le

end Archive

end ObjcLens
