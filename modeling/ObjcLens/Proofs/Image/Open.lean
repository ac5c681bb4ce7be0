import ObjcLens.Image.Read
import ObjcLens.Proofs.Load.Scan

/-!
# Opening slices

A slice is opened in steps: the first four bytes tell byte order and magic number, the header
tells how long the load commands are, and the load commands tell everything else. `ofContents` is
the function behind `ofSlice`, on the bytes of the slice alone.

## Main results

* `ofSlice_eq_ofContents`: a slice is opened by its own bytes.
* `readAll_eq_ok_iff`: reads that only the end of the slice bounds.
* `ofContents_endsIn`: what an opened image consists of, and why a slice is not opened.
-/

namespace ObjcLens

namespace Image

/-- The number of bytes that the header of an image takes. -/
def headerLength (magic : Magic) : Nat :=
  if magic = Magic.image64 then FileHeader.size64 else FileHeader.size32

/-- The bytes of a read that only the end of the slice bounds, if they are all there. -/
def readAll (contents : Array UInt8) (size : Nat) (offset : Int) (count : Nat) :
    Except Error Text :=
  match readWithin contents size offset count with
  | (bytes, none) => .ok bytes
  | (_, some error) => .error error

/-- The image in the bytes of a slice. -/
def ofContents (contents : Array UInt8) (size : Nat) (offset : Int) : Except Error Image :=
  match identify (bytesAt contents 0 4) with
  | none => .error (.notMachO [])
  | some (order, magic) => do
    let bytes ← readAll contents size 0 (headerLength magic)
    let header := headerOfBytes order magic bytes
    let block ← readAll contents size (headerLength magic) header.commandSize.toNat
    let (loads, sections) ←
      Load.parseAll order header.commandCount.toNat 0 (headerLength magic) block
    return {
      header, order, loads, size, offset, contents
      sections := markEncrypted loads sections }

/-- A slice is opened by its own bytes. -/
theorem ofSlice_eq_ofContents (source : Array UInt8) (told : Option Nat) (bounds : SliceBounds) :
    ofSlice source told bounds =
      ofContents (source.extract 0 (sliceSize bounds told)) (sliceSize bounds told)
        bounds.offset := by
  unfold ofSlice ofContents
  dsimp only
  cases identify (bytesAt (source.extract 0 (sliceSize bounds told)) 0 4) <;> rfl

/-- A source that is no longer than the slice is opened as it is. -/
theorem ofSlice_eq_of_size_le {source : Array UInt8} {told : Option Nat} {bounds : SliceBounds}
    (h : source.size ≤ sliceSize bounds told) :
    ofSlice source told bounds = ofContents source (sliceSize bounds told) bounds.offset := by
  rw [ofSlice_eq_ofContents, Array.extract_eq_self_of_le h]

/-- There are no more bytes than were asked for. -/
theorem length_bytesAt_le (contents : Array UInt8) (offset : Int) (count : Nat) :
    (bytesAt contents offset count).length ≤ count := by
  unfold bytesAt
  split
  · exact Nat.zero_le count
  · rw [Array.length_toList, Array.size_extract]
    omega

/-- All bytes of a read are there, or the slice is too short. -/
theorem readAll_eq_ite (contents : Array UInt8) (size offset count : Nat) :
    readAll contents size offset count =
      if offset + count ≤ size ∧ (bytesAt contents offset count).length = count then
        .ok (bytesAt contents offset count)
      else .error (.truncated offset count size) := by
  have hlength := length_bytesAt_le contents offset count
  unfold readAll readWithin
  by_cases hbounds : offset + count ≤ size
  · have hinside : (decide ((offset : Int) < 0) || decide ((size : Int) < offset) ||
        decide ((size : Int) - offset < count)) = false := by
      simp only [Bool.or_eq_false_iff, decide_eq_false_iff_not]
      omega
    simp only [hinside, Bool.false_eq_true, if_false, hbounds, true_and]
    rcases hlength.lt_or_eq with hshort | hall
    · simp [hshort, hshort.ne]
    · simp [hall]
  · have houtside : (decide ((offset : Int) < 0) || decide ((size : Int) < offset) ||
        decide ((size : Int) - offset < count)) = true := by
      simp only [Bool.or_eq_true, decide_eq_true_iff]
      omega
    simp only [houtside, if_true, hbounds, false_and, if_false]

/-- All bytes are read if and only if they are in the slice and in the file. -/
theorem readAll_eq_ok_iff {contents : Array UInt8} {size offset count : Nat} {bytes : Text} :
    readAll contents size offset count = .ok bytes ↔
      offset + count ≤ size ∧ bytesAt contents offset count = bytes ∧ bytes.length = count := by
  rw [readAll_eq_ite]
  split
  · rename_i h
    constructor
    · rintro ⟨⟩
      exact ⟨h.1, rfl, h.2⟩
    · rintro ⟨-, rfl, -⟩
      rfl
  · rename_i h
    refine ⟨nofun, ?_⟩
    rintro ⟨hbounds, rfl, hlength⟩
    exact absurd ⟨hbounds, hlength⟩ h

/-- What is known of a slice that is opened: the load commands are those of the block behind the
header. A slice that is not opened is no image, or too short, or has a malformed load command. -/
theorem ofContents_endsIn (contents : Array UInt8) (size : Nat) (offset : Int) :
    (ofContents contents size offset).EndsIn
      (fun e => e.kind = .notMachO ∨ e.kind = .truncated ∨ e.kind = .format) fun image =>
      image.contents = contents ∧ image.size = size ∧
        ∃ block sections,
          readAll contents size (headerLength image.header.magic)
            image.header.commandSize.toNat = .ok block ∧
          Load.Scans image.order 0 (headerLength image.header.magic) block image.loads sections ∧
          image.loads.length = image.header.commandCount.toNat ∧
          image.sections = markEncrypted image.loads sections := by
  have hread (start count : Nat) : (readAll contents size start count).EndsIn
      (fun e => e.kind = .notMachO ∨ e.kind = .truncated ∨ e.kind = .format) fun _ => True := by
    rw [readAll_eq_ite]
    split
    · trivial
    · exact .inr (.inl rfl)
  unfold ofContents
  split
  · exact .inl rfl
  · rename_i order magic hidentify
    -- the header, then the block it announces, then the commands in the block
    refine (hread 0 _).bind fun bytes _ _ => (hread _ _).bind fun block hblock _ => ?_
    refine ((Load.parseAll_endsIn _ block).imp (fun _ h => .inr (.inr h)) fun _ h => h).bind
      fun ⟨loads, sections⟩ _ ⟨hscans, hcount⟩ => ?_
    exact ⟨rfl, rfl, block, sections, hblock, hscans, hcount, rfl⟩

/-- An opened image has the bytes of the slice and its size, and its sections are marked. -/
theorem ofContents_eq_ok {contents : Array UInt8} {size : Nat} {offset : Int} {image : Image}
    (h : ofContents contents size offset = .ok image) :
    image.contents = contents ∧ image.size = size ∧
      ∃ sections, image.sections = markEncrypted image.loads sections := by
  obtain ⟨hcontents, hsize, _, sections, -, -, -, hsections⟩ :=
    (ofContents_endsIn contents size offset).ok h
  exact ⟨hcontents, hsize, sections, hsections⟩

end Image

end ObjcLens
