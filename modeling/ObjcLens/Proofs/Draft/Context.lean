import Mathlib
import ObjcLens.Proofs.Draft.Reading
import ObjcLens.Proofs.Record.Reads

/-!
# Readers on drafted images

What a reader of records finds in an image that shows a draft: numbers, pointers and texts at the
addresses at which they were written, and lists of entries that were written one behind the other.

## Main results

* `Yields.word32At`, `Yields.pointers`, `Yields.text`: what was written is read.
* `Reads.entries`: the entries of a list are read one by one.
-/

namespace ObjcLens

theorem Image.pointerSize_pos (image : Image) : 0 < image.pointerSize := by
  rw [pointerSize]
  split <;> decide

/-- A draft and an image of the same width have pointers of the same size. -/
theorem Draft.pointerSize_eq {d : Draft} {image : Image} (h : image.is64 = d.is64) :
    d.pointerSize = image.pointerSize := by
  rw [pointerSize, Image.pointerSize, h]

namespace Context

/-- The context is that of an image that shows the draft. -/
structure Shows (context : Context) (d : Draft) : Prop where
  image : context.image.Shows d
  chained_eq : context.chained = .error .noFixups
  categoryClassProperties_eq : context.categoryClassProperties = false

/-- The bytes are at the address. -/
def HasBytes (context : Context) (addr : UInt64) (bytes : Text) : Prop :=
  ∃ d, context.Shows d ∧ d.HasBytes addr bytes

/-- 32-bit numbers as bytes. -/
def words (context : Context) (values : List UInt32) : Text :=
  values.flatMap context.image.order.bytes32

/-- Pointers as bytes. -/
def pointers (context : Context) (values : List UInt64) : Text :=
  values.flatMap fun v =>
    if context.image.is64 then context.image.order.bytes64 v
    else context.image.order.bytes32 v.toUInt32

/-- The address at which the image is loaded. -/
def base (context : Context) : UInt64 := if context.image.is64 then 0x100000000 else 0x10000

/-- The address lies in the image. -/
def Near (context : Context) (addr : UInt64) : Prop :=
  ∃ distance ≤ 0xC000, addr.toNat = context.base.toNat + distance

/-- The number survives as a pointer. -/
def Fits (context : Context) (value : UInt64) : Prop :=
  context.image.is64 = false → value.toNat < 2 ^ 32

variable {context : Context} {d : Draft} {addr : UInt64}

/-- Words are written in the byte order in which they are read. -/
theorem Shows.words_eq (h : context.Shows d) (values : List UInt32) :
    d.words values = context.words values := by
  rw [Draft.words, words, h.image.order_eq]

/-- Pointers are written in the width and the byte order in which they are read. -/
theorem Shows.pointers_eq (h : context.Shows d) (values : List UInt64) :
    d.pointers values = context.pointers values := by
  rw [Draft.pointers, pointers, h.image.order_eq, h.image.is64_eq]

theorem Shows.base_eq (h : context.Shows d) : d.base = context.base := by
  rw [Draft.base, base, h.image.is64_eq]

@[simp]
theorem length_words (context : Context) (values : List UInt32) :
    (context.words values).length = 4 * values.length := by
  simp [words, Nat.mul_comm]

@[simp]
theorem length_pointers (context : Context) (values : List UInt64) :
    (context.pointers values).length = context.image.pointerSize * values.length := by
  rw [pointers, Image.pointerSize]
  cases context.image.is64 <;> simp [Nat.mul_comm]

/-- The first word stands in front of the others. -/
theorem words_cons (context : Context) (v : UInt32) (values : List UInt32) :
    context.words (v :: values) = context.words [v] ++ context.words values := by
  simp [words]

/-- The first pointer stands in front of the others. -/
theorem pointers_cons (context : Context) (v : UInt64) (values : List UInt64) :
    context.pointers (v :: values) = context.pointers [v] ++ context.pointers values := by
  simp [pointers]

@[simp]
theorem fits_zero (context : Context) : context.Fits 0 := fun _ => by decide

/-- An address near the base is no wider than a pointer. -/
theorem Near.fits (h : context.Near addr) : context.Fits addr := by
  intro hwide
  obtain ⟨distance, hdistance, haddr⟩ := h
  rw [haddr, base, hwide]
  change 0x10000 + distance < 2 ^ 32
  omega

/-- An address near the base is not null. -/
theorem Near.ne_zero (h : context.Near addr) : addr ≠ 0 := by
  obtain ⟨distance, -, haddr⟩ := h
  have hbase : 0 < context.base.toNat := by
    rw [base]
    split <;> decide
  rintro rfl
  rw [UInt64.toNat_zero] at haddr
  omega

section HasBytes

variable {bytes a b : Text}

/-- The first bytes of a sequence are where the sequence is. -/
theorem HasBytes.left (h : context.HasBytes addr (a ++ b)) : context.HasBytes addr a := by
  obtain ⟨d, hshows, hbytes⟩ := h
  exact ⟨d, hshows, hbytes.left⟩

/-- The bytes behind others are where these end. -/
theorem HasBytes.right (h : context.HasBytes addr (a ++ b)) :
    context.HasBytes (addr + a.length.toUInt64) b := by
  obtain ⟨d, hshows, hbytes⟩ := h
  exact ⟨d, hshows, hbytes.right⟩

/-- A number stands behind those in front of it. -/
theorem HasBytes.word {before after : List UInt32} {v : UInt32}
    (h : context.HasBytes addr (context.words (before ++ v :: after))) :
    context.HasBytes (addr + (4 * before.length).toUInt64) (context.words [v]) := by
  have hsplit : context.words (before ++ v :: after) =
      context.words before ++ (context.words [v] ++ context.words after) := by
    simp [words]
  rw [hsplit] at h
  have hright := h.right.left
  rwa [length_words] at hright

/-- A pointer stands behind those in front of it. -/
theorem HasBytes.pointer {before after : List UInt64} {v : UInt64}
    (h : context.HasBytes addr (context.pointers (before ++ v :: after))) :
    context.HasBytes (addr + (context.image.pointerSize * before.length).toUInt64)
      (context.pointers [v]) := by
  have hsplit : context.pointers (before ++ v :: after) =
      context.pointers before ++ (context.pointers [v] ++ context.pointers after) := by
    simp [pointers]
  rw [hsplit] at h
  have hright := h.right.left
  rwa [length_pointers] at hright

/-- All bytes fit into a slot. -/
theorem HasBytes.length_le (h : context.HasBytes addr bytes) : bytes.length ≤ slotSize := by
  obtain ⟨d, hshows, slot, hslot, before, after, hstored, -⟩ := h
  have hlength := hshows.image.regular.length_le slot
  rw [hstored, List.length_append, List.length_append] at hlength
  omega

/-- Bytes that are in the image are near its base. -/
theorem HasBytes.near (h : context.HasBytes addr bytes) : context.Near addr := by
  obtain ⟨d, hshows, slot, hslot, before, after, hstored, rfl⟩ := h
  have hlength := hshows.image.regular.length_le slot
  rw [hstored, List.length_append, List.length_append] at hlength
  rw [List.mem_range'_1] at hslot
  refine ⟨slot * slotSize + before.length, ?_, ?_⟩
  · rw [slotSize] at *
    omega
  · rw [Draft.toNat_place d _ _ (by omega) (by omega), hshows.base_eq, Nat.add_assoc]

end HasBytes

end Context

namespace RecordReader

variable {context : Context} {addr : UInt64}

namespace Yields

/-- The bytes at an address are read. -/
theorem readAddr {bytes : Text} (hne : bytes ≠ []) (h : context.HasBytes addr bytes) :
    context.image.readAddr addr bytes.length = .ok bytes := by
  obtain ⟨d, hshows, hbytes⟩ := h
  exact hshows.image.readAddr hne hbytes

/-- A number that was written is read. -/
theorem word32At {v : UInt32} (h : context.HasBytes addr (context.words [v])) :
    Yields context (word32At addr) v := by
  have hread := readAddr (List.ne_nil_of_length_pos (by simp)) h
  rw [Context.length_words] at hread
  refine read_bind ((ofExcept hread).bind ?_)
  have hword : context.image.order.word32 (context.words [v]) = v := by simp [Context.words]
  rw [hword]
  exact pure v

/-- A pointer that was written is read. -/
theorem pointerAt {v : UInt64} (hfits : context.Fits v)
    (h : context.HasBytes addr (context.pointers [v])) :
    Yields context (pointerAt addr) ⟨v, []⟩ := by
  have hread := readAddr (List.ne_nil_of_length_pos
    (by simpa using context.image.pointerSize_pos)) h
  rw [Context.length_pointers, List.length_singleton, Nat.mul_one] at hread
  -- the value is wide enough for its bytes, in either width of pointers
  have hvalue : (context.image.order.toNat (context.pointers [v])).toUInt64 = v := by
    cases hwide : context.image.is64 with
    | true =>
      simp only [Context.pointers, hwide, List.flatMap_singleton, if_true, ByteOrder.bytes64]
      rw [ByteOrder.toNat_bytes _ v.toNat_lt]
      exact UInt64.ofNat_toNat
    | false =>
      have hnarrow : v.toUInt32.toNat = v.toNat := by
        rw [UInt64.toNat_toUInt32, Nat.mod_eq_of_lt (hfits hwide)]
      simp only [Context.pointers, hwide, List.flatMap_singleton, Bool.false_eq_true, if_false,
        ByteOrder.bytes32]
      rw [ByteOrder.toNat_bytes _ v.toUInt32.toNat_lt, hnarrow]
      exact UInt64.ofNat_toNat
  obtain ⟨d, hshows, -⟩ := h
  have hpointer : context.image.pointerWith context.chained addr = .ok ⟨v, []⟩ := by
    rw [Image.pointerWith, hread, hshows.chained_eq]
    change Except.ok (Image.Pointer.mk (_ : Nat).toUInt64 []) = _
    rw [hvalue]
  have hfixups : context.image.hasFixups = false := by
    rw [Image.hasFixups, hshows.image.fixupsRange?_eq]
    rfl
  refine read_bind ((ofExcept hpointer).bind ?_)
  rw [hfixups]
  exact pure _

/-- A range of written bytes lies in one readable section. -/
theorem checkRange {bytes : Text} (hne : bytes ≠ []) (h : context.HasBytes addr bytes) :
    Yields context (checkRange addr bytes.length.toUInt64) () := by
  obtain ⟨d, hshows, hbytes⟩ := h
  obtain ⟨s, hreaches, -⟩ := hshows.image.exists_reaches hne hbytes
  refine read_bind ?_
  have hinside : (decide (addr + bytes.length.toUInt64 < addr) ||
      decide (s.addr + s.size < addr + bytes.length.toUInt64)) = false := by
    rw [decide_eq_false hreaches.stop_le, decide_eq_false hreaches.start_le, Bool.or_self]
  simp only [hreaches.sectionAt?_eq, hinside, hreaches.encrypted_eq]
  exact pure ()

/-- Pointers that were written one behind the other are read. -/
theorem pointersFrom {values : List UInt64} (hfits : ∀ v ∈ values, context.Fits v)
    (h : context.HasBytes addr (context.pointers values)) :
    Yields context (pointersFrom context.image.pointerSize.toUInt64 values.length addr)
      (values.map fun v => ⟨v, []⟩) := by
  induction values generalizing addr with
  | nil => exact pure _
  | cons v values ih =>
    rw [List.forall_mem_cons] at hfits
    rw [Context.pointers_cons] at h
    have hrest := h.right
    rw [Context.length_pointers, List.length_singleton, Nat.mul_one] at hrest
    exact (pointerAt hfits.1 h.left).bind ((ih hfits.2 hrest).bind (pure _))

/-- Pointers that were written one behind the other are read. -/
theorem pointers {values : List UInt64} (hne : values ≠ []) (hfits : ∀ v ∈ values, context.Fits v)
    (h : context.HasBytes addr (context.pointers values)) :
    Yields context (pointers addr values.length) (values.map fun v => ⟨v, []⟩) := by
  have hlength : values.length.toUInt64 * context.image.pointerSize.toUInt64 =
      (context.pointers values).length.toUInt64 := by
    rw [Context.length_pointers, Nat.mul_comm]
    exact (UInt64.ofNat_mul _ _).symm
  have hbytes : context.pointers values ≠ [] := by
    refine List.ne_nil_of_length_pos ?_
    rw [Context.length_pointers]
    exact Nat.mul_pos context.image.pointerSize_pos (List.length_pos_iff.2 hne)
  have hcheck := checkRange hbytes h
  rw [← hlength] at hcheck
  exact pointerSize.bind (hcheck.bind (pointersFrom hfits h))

/-- A text that was written is read. -/
theorem text {t : Text} (hzero : 0 ∉ t) (h : context.HasBytes addr (t ++ [0])) :
    Yields context (text addr) t := by
  have hne := h.near.ne_zero
  obtain ⟨d, hshows, hbytes⟩ := h
  rw [RecordReader.text, if_neg hne]
  exact read_bind (ofExcept (hshows.image.cstring hzero hbytes))

/-- There is no text at the address zero. -/
theorem text_zero : Yields context (RecordReader.text 0) [] := pure []

/-- The header of a list is read, if the bytes behind it are those of all entries. -/
theorem listHeader {minimum : UInt32} {header : MethodListHeader} {entries : Text}
    (h : context.HasBytes addr (context.words [header.entryWord, header.count] ++ entries))
    (hsize : minimum ≤ header.entrySize)
    (hlength : entries.length = header.count.toNat * header.entrySize.toNat) :
    Yields context (listHeader addr minimum) header := by
  have hcheck := checkRange (List.ne_nil_of_length_pos (by simp)) h
  -- the header counts as the first of the bytes that are checked
  have htotal : (context.words [header.entryWord, header.count] ++ entries).length.toUInt64 =
      8 + header.count.toUInt64 * header.entrySize.toUInt64 := by
    rw [List.length_append, Context.length_words, hlength]
    change UInt64.ofNat (8 + header.count.toNat * header.entrySize.toNat) = _
    rw [UInt64.ofNat_add, UInt64.ofNat_mul, UInt64.ofNat_uInt32ToNat, UInt64.ofNat_uInt32ToNat]
    rfl
  rw [htotal] at hcheck
  rw [Context.words_cons] at h
  have hcount := h.left.right
  rw [Context.length_words] at hcount
  refine (word32At h.left.left).bind ((word32At hcount).bind ?_)
  rw [if_neg (UInt32.not_lt.2 hsize)]
  exact hcheck.bind (pure _)

end Yields

namespace Reads

variable {α β : Type}

/-- Entries that were written one behind the other are read. -/
theorem entriesFrom {item : UInt64 → RecordReader α} {value : β → α} {size : UInt64} {xs : List β}
    {entries : List Text} (hsize : ∀ bytes ∈ entries, bytes.length = size.toNat)
    (hitems : List.Forall₂ (fun x bytes =>
      ∀ addr, context.HasBytes addr bytes → Reads context (item addr) (value x)) xs entries)
    (h : context.HasBytes addr entries.flatten) :
    Reads context (entriesFrom item size xs.length addr) (xs.map value) := by
  induction hitems generalizing addr with
  | nil => exact pure _
  | cons hfirst _ ih =>
    rw [List.forall_mem_cons] at hsize
    rw [List.flatten_cons] at h
    have hrest := h.right
    have hstep : size.toNat.toUInt64 = size := UInt64.ofNat_toNat
    rw [hsize.1, hstep] at hrest
    exact (hfirst _ h.left).bind ((ih hsize.2 hrest).bind (pure _))

end Reads

/-- What holds of the second of two related items holds of every item of the second list. -/
theorem forall_mem_right {α β : Type} {R : α → β → Prop} {P : β → Prop} {as : List α} {bs : List β}
    (h : List.Forall₂ R as bs) (himp : ∀ a b, R a b → P b) : ∀ b ∈ bs, P b := by
  induction h with
  | nil => simp
  | cons hfirst _ ih => exact List.forall_mem_cons.2 ⟨himp _ _ hfirst, ih⟩

/-- A list is at the address: a header, and behind it entries of the size that it tells. -/
structure HasList (context : Context) (addr : UInt64) (header : MethodListHeader)
    (entries : List Text) : Prop where
  hasBytes : context.HasBytes addr
    (context.words [header.entryWord, header.count] ++ entries.flatten)
  count_eq : header.count = entries.length.toUInt32
  size_eq : ∀ bytes ∈ entries, bytes.length = header.entrySize.toNat
  size_pos : 0 < header.entrySize.toNat

namespace HasList

variable {header : MethodListHeader} {entries : List Text}

/-- The entries of a list have one size. -/
theorem length_flatten (h : HasList context addr header entries) :
    entries.flatten.length = entries.length * header.entrySize.toNat := by
  rw [List.length_flatten, List.map_congr_left h.size_eq, List.map_const', List.sum_replicate,
    smul_eq_mul]

/-- The header of a list counts its entries. -/
theorem toNat_count (h : HasList context addr header entries) :
    header.count.toNat = entries.length := by
  have hlength := h.hasBytes.length_le
  rw [List.length_append, h.length_flatten, slotSize] at hlength
  have hle : entries.length ≤ entries.length * header.entrySize.toNat :=
    Nat.le_mul_of_pos_right _ h.size_pos
  rw [h.count_eq]
  exact UInt32.toNat_ofNat_of_lt' (by rw [UInt32.size]; omega)

/-- The header of a list is read as it was written, if its entries are not too small. -/
theorem yields_listHeader (h : HasList context addr header entries) {minimum : UInt32}
    (hsize : minimum ≤ header.entrySize) : Yields context (listHeader addr minimum) header :=
  Yields.listHeader h.hasBytes hsize (by rw [h.length_flatten, h.toNat_count])

/-- A list that is in the image is not at address zero. -/
theorem ne_zero (h : HasList context addr header entries) : addr ≠ 0 := h.hasBytes.near.ne_zero

theorem yields_entryWord (h : HasList context addr header entries) :
    Yields context (word32At addr) header.entryWord := by
  have hbytes := h.hasBytes.left
  rw [Context.words_cons] at hbytes
  exact Yields.word32At hbytes.left

/-- The entries stand behind the header. -/
theorem hasBytes_entries (h : HasList context addr header entries) :
    context.HasBytes (addr + 8) entries.flatten := by
  have hbytes := h.hasBytes.right
  rwa [Context.length_words] at hbytes

/-- As many entries are read as the list has. -/
theorem entries_eq (h : HasList context addr header entries) {α : Type}
    (item : UInt64 → RecordReader α) : RecordReader.entries addr header item =
      entriesFrom item header.entrySize.toUInt64 entries.length (addr + 8) := by
  rw [RecordReader.entries, h.toNat_count]

/-- A list with entries of one size, written for the items of a list. -/
theorem of_forall₂ {β : Type} {R : β → Text → Prop} {xs : List β} {entryWord : UInt32}
    (hitems : List.Forall₂ R xs entries)
    (hbytes : context.HasBytes addr
      (context.words [entryWord, xs.length.toUInt32] ++ entries.flatten))
    (hsize : ∀ x bytes, R x bytes →
      bytes.length = (MethodListHeader.mk entryWord xs.length.toUInt32).entrySize.toNat)
    (hpos : 0 < (MethodListHeader.mk entryWord xs.length.toUInt32).entrySize.toNat) :
    HasList context addr ⟨entryWord, xs.length.toUInt32⟩ entries := by
  refine ⟨hbytes, by rw [hitems.length_eq], fun bytes hmem => ?_, hpos⟩
  exact forall_mem_right hitems hsize bytes hmem

/-- The entries of a list are read one by one. -/
theorem reads_entries (h : HasList context addr header entries) {α β : Type}
    {item : UInt64 → RecordReader α} {value : β → α} {xs : List β}
    (hitems : List.Forall₂ (fun x bytes =>
      ∀ addr, context.HasBytes addr bytes → Reads context (item addr) (value x)) xs entries) :
    Reads context (RecordReader.entries addr header item) (xs.map value) := by
  rw [h.entries_eq, ← hitems.length_eq]
  refine Reads.entriesFrom (fun bytes hmem => ?_) hitems h.hasBytes_entries
  rw [h.size_eq bytes hmem, UInt32.toNat_toUInt64]

end HasList

end RecordReader

end ObjcLens
