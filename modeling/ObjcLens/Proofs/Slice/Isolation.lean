import Mathlib
import ObjcLens.Proofs.Image.Secrecy
import ObjcLens.Record.Metadata
import ObjcLens.Slice

/-!
# One slice of an archive is read

An archive shows the image of the slice that is chosen and nothing else of it: two archives with
the same table of slices and the same bytes in the chosen slice are read alike, whatever the other
slices and the gaps between them hold.

## Main results

* `Slice.ofArchive_congr`: the slices of an archive depend on its table alone.
* `Slice.image_congr`: the image of a slice depends on its bytes alone.
* `Image.load_eq_of_sameToSlice`: archives that agree on both give the same image and metadata.
-/

namespace ObjcLens

namespace Slice

/-- The number of bytes that the header of an archive and the records of its slices take. -/
def tableLength (contents : Contents) : Nat :=
  headerSize + recordSize * (ByteOrder.big.word32 (Image.bytesAt contents 4 4)).toNat

/-- The slice of a file that is to be read on a host. -/
def chosen (host : CpuType) (contents : Contents) (limit : Option Nat) (wanted : List Arch) :
    Except Error Slice := do
  selectOn host (← ofContents contents limit) wanted

section Congruence

variable {a b : Contents}

/-- The records are read from the table, which ends where the last one does. -/
private theorem readRecords_congr (hsize : a.size = b.size) (limit : Option Nat) (count : Nat)
    (seen : List Slice) (place : Nat)
    (h : ∀ i < place + recordSize * count, a[i]? = b[i]?) :
    readRecords a limit count seen place = readRecords b limit count seen place := by
  induction count generalizing seen place with
  | zero => rfl
  | succ count ih =>
    rw [Nat.mul_succ] at h
    have hbytes : Image.bytesAt a place recordSize = Image.bytesAt b place recordSize := by
      apply Image.bytesAt_congr hsize
      intro i _ hi
      exact h i (by omega)
    -- the later records are further on, still within the bytes that agree
    have hrest (first : Slice) : readRecords a limit count (first :: seen) (place + recordSize) =
        readRecords b limit count (first :: seen) (place + recordSize) := by
      apply ih
      intro i hi
      exact h i (by omega)
    simp only [readRecords, hbytes, hrest]

/-- The magic number stands in front of the records, however many there are. -/
private theorem magic_congr (hsize : a.size = b.size) (h : ∀ i < tableLength a, a[i]? = b[i]?) :
    Image.bytesAt a 0 4 = Image.bytesAt b 0 4 := by
  apply @Image.bytesAt_congr a b hsize 0 4
  intro i _ hi
  exact h i (by rw [tableLength, headerSize]; omega)

/-- The slices of an archive depend on its table alone. -/
theorem ofArchive_congr (hsize : a.size = b.size) (h : ∀ i < tableLength a, a[i]? = b[i]?)
    (limit : Option Nat) : ofArchive a limit = ofArchive b limit := by
  have hcount : Image.bytesAt a 4 4 = Image.bytesAt b 4 4 := by
    apply @Image.bytesAt_congr a b hsize 4 4
    intro i _ hi
    exact h i (by rw [tableLength, headerSize]; omega)
  have hrecords := readRecords_congr hsize limit _ [] headerSize h
  rw [hcount] at hrecords
  simp only [ofArchive, magic_congr hsize h, hcount, hrecords]

/-- The check of a slice never takes the file for a single image. -/
private theorem check_ne_notFat (limit : Option Nat) (seen : List Slice) (place : Nat) (s : Slice) :
    check limit seen place s ≠ .error .notFat := by
  simp only [check, bind, Except.bind, throw, throwThe, MonadExceptOf.throw]
  split
  · simp
  · split
    · simp
    · split
      · simp
      · rintro ⟨⟩

/-- A bad record is an error of its own: it does not make an archive an image. -/
private theorem readRecords_ne_notFat (contents : Contents) (limit : Option Nat) (count : Nat)
    (seen : List Slice) (place : Nat) :
    readRecords contents limit count seen place ≠ .error .notFat := by
  induction count generalizing seen place with
  | zero => rintro ⟨⟩
  | succ count ih =>
    simp only [readRecords, bind, Except.bind, throw, throwThe, MonadExceptOf.throw]
    split
    · simp
    · split
      · rename_i e he
        rintro ⟨⟩
        exact check_ne_notFat _ _ _ _ he
      · split
        · rename_i e he
          rintro ⟨⟩
          exact ih _ _ he
        · rintro ⟨⟩

/-- A file that starts with the magic number of archives is never taken for an image. -/
theorem ofContents_eq_ofArchive {contents : Contents} (limit : Option Nat)
    (h : ByteOrder.big.word32 (Image.bytesAt contents 0 4) = archiveMagic) :
    ofContents contents limit = ofArchive contents limit := by
  have hne : ofArchive contents limit ≠ .error .notFat := by
    simp only [ofArchive, bind, Except.bind, throw, throwThe, MonadExceptOf.throw, h, ne_eq,
      not_true, if_false]
    split
    · simp
    · split
      · simp
      · split
        · simp
        · split
          · simp
          · apply readRecords_ne_notFat
  unfold ofContents
  split
  · contradiction
  · rfl

/-- The image of a slice depends on its bytes alone. -/
theorem image_congr (hsize : a.size = b.size) (s : Slice)
    (h : ∀ i, s.offset.toNat ≤ i → i < s.offset.toNat + s.size.toNat → a[i]? = b[i]?) :
    s.image a = s.image b := by
  have hbytes : s.bytes a = s.bytes b := by
    apply Array.ext_getElem?
    intro i
    simp only [bytes, Array.getElem?_extract, hsize]
    split
    · exact h _ (by omega) (by omega)
    · rfl
  rw [image, image, hbytes]

end Congruence

end Slice

/-- Two archives of one size that agree on the table of slices and on the bytes of the slice that
is chosen from it on a host. -/
structure SameToSlice (host : CpuType) (a b : Contents) (limit : Option Nat) (wanted : List Arch) :
    Prop where
  size_eq : a.size = b.size
  magic_eq : ByteOrder.big.word32 (Image.bytesAt a 0 4) = Slice.archiveMagic
  table_eq : ∀ i < Slice.tableLength a, a[i]? = b[i]?
  slice_eq : ∀ s, Slice.chosen host a limit wanted = .ok s →
    ∀ i, s.offset.toNat ≤ i → i < s.offset.toNat + s.size.toNat → a[i]? = b[i]?

namespace SameToSlice

variable {host : CpuType} {a b : Contents} {limit : Option Nat} {wanted : List Arch}

/-- Both archives have the same slice chosen. -/
theorem chosen_eq (h : SameToSlice host a b limit wanted) :
    Slice.chosen host a limit wanted = Slice.chosen host b limit wanted := by
  have hslices := Slice.ofArchive_congr h.size_eq h.table_eq limit
  -- the magic number stands in the table, so that both files are archives
  have hmagic : Image.bytesAt a 0 4 = Image.bytesAt b 0 4 := Slice.magic_congr h.size_eq h.table_eq
  rw [Slice.chosen, Slice.chosen, Slice.ofContents_eq_ofArchive limit h.magic_eq,
    Slice.ofContents_eq_ofArchive limit (hmagic ▸ h.magic_eq), hslices]

end SameToSlice

namespace Image

/-- The image of a file is that of the slice that is chosen. -/
theorem load_eq (host : CpuType) (contents : Contents) (limit : Option Nat) (wanted : List Arch) :
    load host contents limit wanted =
      (Slice.chosen host contents limit wanted).bind (·.image contents) := by
  rw [load, Slice.chosen]
  cases Slice.ofContents contents limit <;> rfl

/-- Archives that agree on the table and on the chosen slice are read alike: they have the same
image or the same error, and the image the same metadata. This holds on every host. -/
theorem load_eq_of_sameToSlice {host : CpuType} {a b : Contents} {limit : Option Nat}
    {wanted : List Arch} (h : SameToSlice host a b limit wanted) :
    load host a limit wanted = load host b limit wanted ∧
      ∀ rememberNames, (load host a limit wanted).map (·.extract rememberNames) =
        (load host b limit wanted).map (·.extract rememberNames) := by
  have hload : load host a limit wanted = load host b limit wanted := by
    have hchosen := h.chosen_eq
    simp only [load_eq, ← hchosen]
    cases hslice : Slice.chosen host a limit wanted with
    | error e => simp only [Except.bind]
    | ok s =>
      -- the files agree on the bytes of the slice that is taken, so its image is the same
      have himage : s.image a = s.image b := Slice.image_congr h.size_eq s (h.slice_eq s hslice)
      simpa only [Except.bind] using himage
  refine ⟨hload, ?_⟩
  intro rememberNames
  rw [hload]

/-- An archive of two slices, the first an image without load commands. The second ends with the
given byte. -/
private def twoSlices (last : UInt8) : Contents :=
  let first : Slice := ⟨CpuType.arm64, 0, 48, 32, 0⟩
  let second : Slice := ⟨CpuType.x86_64, 3, 80, 4, 0⟩
  (ByteOrder.big.bytes32 Slice.archiveMagic ++ ByteOrder.big.bytes32 2 ++ first.record ++
    second.record ++ ByteOrder.little.bytes32 0xFEEDFACF ++ List.replicate 28 0 ++
    [1, 2, 3, last]).toArray

/-- The second slices of two archives differ, and the first ones are read alike. -/
theorem load_twoSlices :
    twoSlices 4 ≠ twoSlices 5 ∧
      (load .x86_64 (twoSlices 4) (some 84) [⟨CpuType.arm64, 0⟩]).toBool ∧
      SameToSlice .x86_64 (twoSlices 4) (twoSlices 5) (some 84) [⟨CpuType.arm64, 0⟩] ∧
      load .x86_64 (twoSlices 4) (some 84) [⟨CpuType.arm64, 0⟩] =
        load .x86_64 (twoSlices 5) (some 84) [⟨CpuType.arm64, 0⟩] := by
  have hsame : SameToSlice .x86_64 (twoSlices 4) (twoSlices 5) (some 84)
      [⟨CpuType.arm64, 0⟩] := by
    have hchosen : (Slice.chosen .x86_64 (twoSlices 4) (some 84)
        [⟨CpuType.arm64, 0⟩]).toOption = some ⟨CpuType.arm64, 0, 48, 32, 0⟩ := by decide +kernel
    refine ⟨by decide +kernel, by decide +kernel, by decide +kernel, ?_⟩
    intro s hs
    rw [hs] at hchosen
    obtain rfl : s = _ := Option.some.inj hchosen
    have hbytes : ∀ i < 80, (twoSlices 4)[i]? = (twoSlices 5)[i]? := by decide +kernel
    intro i _ hi
    exact hbytes i hi
  exact ⟨by decide +kernel, by decide +kernel, hsame, (load_eq_of_sameToSlice hsame).1⟩

end Image

end ObjcLens
