import Mathlib
import ObjcLens.Proofs.Draft.Entities

/-!
# Lists of records are read entry by entry

The lists of an image hold the addresses of its records. If every listed record can be read, all
of them are, in the order of the list, and none is skipped.

## Main results

* `Shows.dataSections_eq`: a list is there if and only if it has entries.
* `Shows.imageInfo_eq`: the image info that was written first is read.
* `Reads.listSections`: all records of a list are read.
-/

namespace ObjcLens

namespace Image

open Draft

variable {image : Image} {d : Draft}

/-- The sections of the empty draft that a list with a name is read from. -/
def listsNamed (name : Text) : List DraftSection :=
  emptySections.filter fun s =>
    (Text.ofString "__DATA").isPrefixOf s.segment && s.name = name

/-- A section of a list is one of the empty draft. -/
theorem mem_of_listsNamed {name : Text} {t : DraftSection} (h : listsNamed name = [t]) :
    t ∈ emptySections := by
  have hself : t ∈ listsNamed name := h ▸ List.mem_singleton_self t
  exact (List.mem_filter.1 hself).1

/-- A list is there if and only if it has entries. -/
theorem Shows.dataSections_eq (h : image.Shows d) {name : Text} {t : DraftSection}
    (ht : listsNamed name = [t]) :
    image.dataSections name =
      if d.stored t.slot = [] then [] else [d.imageSection (d.filled t)] := by
  have hfilter : image.dataSections name =
      ((([t].map d.filled).filter fun s => s.size ≠ 0).map d.imageSection) := by
    rw [dataSections, h.sections_eq, imageSections, sections_eq_map_filled h.regular, ← ht,
      listsNamed]
    simp only [List.filter_map, List.filter_filter]
    congr 3
    funext s
    exact Bool.and_comm _ _
  rw [hfilter]
  have hsize := size_filled_eq_zero h.regular (mem_of_listsNamed ht)
  split
  · rename_i hempty
    simp [hsize.2 hempty]
  · rename_i hempty
    simp [mt hsize.1 hempty]

/-- The bytes of the section of a slot are read as a whole. -/
private theorem Shows.sectionData_eq (h : image.Shows d) {slot : Nat}
    (hslot : slot ∈ List.range' 1 10) {s : Section} (hs : d.IsSlot slot s) :
    image.sectionData s = .returned (d.stored slot, none) := by
  have hlength := h.regular.length_le slot
  have hbytes := h.bytes_eq slot hslot 0 (d.stored slot).length (Nat.zero_add _).le
  rw [List.drop_zero, List.take_length, Nat.add_zero, ← hs.offset_eq, ← hs.size_eq] at hbytes
  -- a slot is far smaller than what a buffer can hold
  have hbuffer : ¬ maxBuffer < s.size := by
    rw [UInt64.lt_iff_toNat_lt, hs.size_eq]
    change ¬ 0x1000000000000 < _
    rw [slotSize] at hlength
    omega
  have hall : ¬ (d.stored slot).length < s.size.toNat := by rw [hs.size_eq]; omega
  simp only [sectionData, hs.encrypted_eq, hs.isZeroFill_eq, if_neg hbuffer, hbytes, if_neg hall,
    Bool.false_eq_true, if_false]

/-- The image info that was written first is read. -/
theorem Shows.imageInfo_eq (h : image.Shows d) {flags : List UInt32}
    (hstored : d.stored 7 = flags.flatMap fun f => d.words [0, f]) :
    image.imageInfo = .returned
      (flags.head?.elim (.error .noImageInfo) fun f => .ok ⟨0, f⟩) := by
  obtain ⟨t, ht, hslot⟩ : ∃ t, listsNamed "__objc_imageinfo" = [t] ∧ t.slot = 7 :=
    ⟨_, rfl, rfl⟩
  have hsections := h.dataSections_eq ht
  rw [hslot] at hsections
  cases flags with
  -- without flags the section is empty, so there is none
  | nil =>
    have hempty : d.stored 7 = [] := hstored
    rw [if_pos hempty] at hsections
    rw [imageInfo, hsections]
    rfl
  | cons f rest =>
    rw [List.flatMap_cons] at hstored
    have hne : d.stored 7 ≠ [] := by
      rw [hstored]
      exact List.ne_nil_of_length_pos (by simp)
    rw [if_neg hne] at hsections
    have hs := isSlot_filled h.regular (mem_of_listsNamed ht) (by rw [hslot]; decide)
    rw [hslot] at hs
    have hsize : (d.imageSection (d.filled t)).size ≠ 0 := by
      intro hzero
      have hlength := hs.size_eq
      rw [hzero] at hlength
      exact hne (List.length_eq_zero_iff.1 hlength.symm)
    have hdata := h.sectionData_eq (by decide) hs
    have hlong : ¬ (d.stored 7).length < 8 := by
      rw [hstored, List.length_append, length_words, List.length_cons, List.length_singleton]
      omega
    have hfirst : image.order.word32 (d.stored 7) = 0 := by
      rw [hstored, h.order_eq]
      simp [words]
    have hsecond : image.order.word32 ((d.stored 7).drop 4) = f := by
      rw [hstored, h.order_eq]
      simp [words]
    simp only [imageInfo, hsections, if_neg hsize, hdata, Attempt.map_returned, decodeInfo,
      if_neg hlong, hfirst, hsecond]
    rfl

end Image

namespace RecordReader

variable {context : Context} {α : Type}

/-- The address of a record is read from a list, and then the record. -/
theorem Reads.listEntry {item : UInt64 → RecordReader α} {addr place : UInt64} {value : α}
    (hnear : context.Near addr) (hitem : Reads context (item addr) value)
    (h : context.HasBytes place (context.pointers [addr])) (s : Section) (record : Text)
    (index : Nat) : Reads context (listEntry s record item index place) ([value], []) := by
  refine Reads.tryCatch ?_ _
  refine (of_yields (Yields.pointerAt hnear.fits h)).bind ?_
  rw [if_neg (by simp [hnear.ne_zero])]
  refine Reads.tryCatch ?_ _
  exact hitem.bind (pure _)

/-- All records of a list are read, if they can be read one by one. -/
theorem Reads.listEntries {item : UInt64 → RecordReader α} {addrs : List UInt64} {values : List α}
    (hitems : List.Forall₂ (fun addr value =>
      context.Near addr ∧ Reads context (item addr) value) addrs values)
    {place : UInt64} (h : context.HasBytes place (context.pointers addrs)) (s : Section)
    (record : Text) (index : Nat) :
    Reads context (listEntries s record item context.image.pointerSize.toUInt64 addrs.length index
      place) (values, []) := by
  induction hitems generalizing place index with
  | nil => exact pure _
  | cons hfirst _ ih =>
    rw [Context.pointers_cons] at h
    have hrest := h.right
    rw [Context.length_pointers, List.length_singleton, Nat.mul_one] at hrest
    refine (listEntry hfirst.1 hfirst.2 h.left s record index).bind ?_
    exact (ih hrest (index + 1)).bind (pure _)

/-- All records of a list are read, whether the list is there or not. -/
theorem Reads.listSections {item : UInt64 → RecordReader α} {d : Draft} (hshows : context.Shows d)
    {name : Text} {t : DraftSection}
    (ht : Image.listsNamed name = [t]) (hslot : t.slot ∈ List.range' 1 10) {addrs : List UInt64}
    {values : List α}
    (hstored : d.stored t.slot = d.pointers addrs)
    (hitems : List.Forall₂ (fun addr value =>
      context.Near addr ∧ Reads context (item addr) value) addrs values) (record : Text) :
    Reads context (listSections record item (context.image.dataSections name)) (values, []) := by
  rw [hshows.image.dataSections_eq ht]
  have hlength : (d.stored t.slot).length = context.image.pointerSize * addrs.length := by
    rw [hstored, hshows.pointers_eq, Context.length_pointers]
  split
  · rename_i hempty
    rw [hempty, List.length_nil] at hlength
    have hnone : addrs = [] := by
      have hpos := context.image.pointerSize_pos
      rcases Nat.mul_eq_zero.1 hlength.symm with h | h
      · omega
      · exact List.length_eq_zero_iff.1 h
    rw [hnone, List.forall₂_nil_left_iff] at hitems
    rw [hitems]
    exact pure _
  · rename_i hne
    have hs := Draft.isSlot_filled hshows.image.regular (Image.mem_of_listsNamed ht) (by
      rintro heq
      rw [heq] at hslot
      exact absurd hslot (by decide))
    have hcount : ((d.imageSection (d.filled t)).size / context.image.pointerSize.toUInt64).toNat =
        addrs.length := by
      have hsize : context.image.pointerSize.toUInt64.toNat = context.image.pointerSize := by
        rw [Image.pointerSize]
        split <;> rfl
      rw [UInt64.toNat_div, hs.size_eq, hlength, hsize,
        Nat.mul_div_cancel_left _ context.image.pointerSize_pos]
    have hbytes : context.HasBytes (d.imageSection (d.filled t)).addr
        (context.pointers addrs) := by
      refine ⟨d, hshows, t.slot, hslot, [], [], ?_, hs.addr_eq⟩
      rw [hstored, hshows.pointers_eq, List.append_nil, List.nil_append]
    refine Reads.bind (a := (values, [])) ?_ (Reads.bind (pure _) ?_)
    · rw [listSection, hs.encrypted_eq]
      refine (of_yields Yields.pointerSize).bind ?_
      rw [hcount]
      exact listEntries hitems hbytes _ record 0
    · dsimp only
      rw [List.append_nil, List.append_nil]
      exact pure _

/-- All records of an image are read, and none is skipped. -/
theorem Reads.readMetadata {d : Draft} (hshows : context.Shows d)
    {classAddrs categoryAddrs protocolAddrs : List UInt64}
    (hclassList : d.stored 4 = d.pointers classAddrs)
    (hcategoryList : d.stored 5 = d.pointers categoryAddrs)
    (hprotocolList : d.stored 6 = d.pointers protocolAddrs)
    {classes : List Class} {categories : List Category} {protocols : List Protocol}
    (hclasses : List.Forall₂ (fun addr value =>
      context.Near addr ∧ Reads context (RecordReader.readClass addr) value) classAddrs classes)
    (hcategories : List.Forall₂ (fun addr value =>
      context.Near addr ∧ Reads context (readCategory addr) value) categoryAddrs categories)
    (hprotocols : List.Forall₂ (fun addr value =>
      context.Near addr ∧ Reads context (RecordReader.readProtocol addr) value)
        protocolAddrs protocols)
    {info : Except Error ImageInfo}
    (hinfo : info = .error .noImageInfo ∨ ∃ record, info = .ok record) :
    Reads context (readMetadata info)
      { imageInfo := info.toOption, classes, categories, protocols, skipped := [] } := by
  have hreadProtocols : Reads context (RecordReader.listSections "protocol_t"
      RecordReader.readProtocol (context.image.dataSections "__objc_protolist")) _ :=
    listSections hshows rfl (by decide) hprotocolList hprotocols _
  have hreadClasses : Reads context (RecordReader.listSections "class_t"
      RecordReader.readClass (context.image.dataSections "__objc_classlist")) _ :=
    listSections hshows rfl (by decide) hclassList hclasses _
  have hreadCategories : Reads context (RecordReader.listSections "category_t"
      readCategory (context.image.dataSections "__objc_catlist")) _ :=
    listSections hshows rfl (by decide) hcategoryList hcategories _
  -- an image info that is not there is no reason to skip anything
  rcases hinfo with rfl | ⟨info, rfl⟩ <;>
    exact read_bind (hreadProtocols.bind (hreadClasses.bind (hreadCategories.bind
      ((note _).bind (pure _)))))

end RecordReader

end ObjcLens
