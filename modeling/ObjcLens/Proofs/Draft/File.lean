import Mathlib
import ObjcLens.Proofs.Draft.Command
import ObjcLens.Proofs.Draft.Step

/-!
# Drafts are opened as they were made

If the sizes of its sections are no wider than addresses, the load commands of a draft state them.
The file of the draft is then opened as an image that displays it: the sections of the image are
those of the draft that are not empty, with marks for the encrypted ones. The draft is fitting if no
section is longer than its slot, either. Then the contents of every section are at their place in
the file. Regular drafts are fitting, and always written.

## Main results

* `Stated.exists_displays`: the file of a draft is opened as an image that displays the draft.
* `Fitting.take_drop_file`: the contents of every section are at their place.
* `Fitting.encodeIn_perm`: the order in which the sections are written makes no difference.
* `exists_shows`: a regular draft is written, and opened as an image that shows it.
-/

namespace ObjcLens

namespace Draft

/-- To overwrite bytes of a file does not change its length. -/
@[simp]
theorem length_overwrite (file : Text) (offset : Nat) (bytes : Text) :
    (overwrite file offset bytes).length = file.length := by
  simp only [overwrite, List.length_take, List.length_append, List.length_drop]
  omega

/-- Overwriting replaces the bytes of a stretch and no others. -/
theorem getElem?_overwrite {file : Text} (offset : Nat) (bytes : Text) {i : Nat}
    (hi : i < file.length) :
    (overwrite file offset bytes)[i]? =
      if offset ≤ i ∧ i < offset + bytes.length then bytes[i - offset]? else file[i]? := by
  rw [overwrite, List.getElem?_take_of_lt hi, List.append_assoc]
  by_cases hbefore : i < offset
  · rw [if_neg (by omega), List.getElem?_append_left (by rw [List.length_take]; omega),
      List.getElem?_take_of_lt hbefore]
  · have hlength : (file.take offset).length = offset := List.length_take_of_le (by omega)
    rw [List.getElem?_append_right (by omega), hlength]
    split
    · rw [List.getElem?_append_left (by omega)]
    · rw [List.getElem?_append_right (by omega), List.getElem?_drop]
      congr 1
      omega

/-- Two stretches that have no byte in common may be overwritten in any order. -/
theorem overwrite_comm (file : Text) {i j : Nat} {a b : Text}
    (h : i + a.length ≤ j ∨ j + b.length ≤ i) :
    overwrite (overwrite file i a) j b = overwrite (overwrite file j b) i a := by
  refine List.ext_getElem? fun k => ?_
  by_cases hk : k < file.length
  · have hlength (offset : Nat) (bytes : Text) : k < (overwrite file offset bytes).length := by
      rwa [length_overwrite]
    rw [getElem?_overwrite _ _ (hlength i a), getElem?_overwrite _ _ (hlength j b),
      getElem?_overwrite _ _ hk, getElem?_overwrite _ _ hk]
    by_cases ha : i ≤ k ∧ k < i + a.length
    · rw [if_neg (by omega), if_pos ha, if_pos ha]
    · rw [if_neg ha, if_neg ha]
  · rw [List.getElem?_eq_none (by simpa using hk), List.getElem?_eq_none (by simpa using hk)]

/-- The file with the contents of sections put at their slots. -/
private def fill (sections : List DraftSection) (file : Text) : Text :=
  sections.foldl (fun file s => overwrite file (s.slot * slotSize) s.contents) file

/-- To fill in sections does not change the length of a file. -/
private theorem length_fill (sections : List DraftSection) (file : Text) :
    (fill sections file).length = file.length := by
  induction sections generalizing file with
  | nil => rfl
  | cons s rest ih => exact (ih _).trans (length_overwrite _ _ _)

/-- Bytes outside the slots of the sections are kept. -/
private theorem getElem?_fill_of_forall {sections : List DraftSection} {file : Text}
    (h : ∀ s ∈ sections, s.contents.length ≤ slotSize) {i : Nat} (hi : i < file.length)
    (hother : ∀ s ∈ sections, i / slotSize ≠ s.slot) : (fill sections file)[i]? = file[i]? := by
  induction sections generalizing file with
  | nil => rfl
  | cons s rest ih =>
    rw [List.forall_mem_cons] at h hother
    change (fill rest (overwrite file (s.slot * slotSize) s.contents))[i]? = _
    rw [ih h.2 (by rwa [length_overwrite]) hother.2, getElem?_overwrite _ _ hi, if_neg]
    rintro ⟨hlow, hhigh⟩
    exact hother.1 (Nat.div_eq_of_lt_le hlow (by have := h.1; rw [Nat.add_mul]; omega))

/-- Bytes in front of all sections are kept, however long the contents are. -/
private theorem getElem?_fill_of_lt {sections : List DraftSection} {file : Text} {i : Nat}
    (hi : i < file.length) (hfront : ∀ s ∈ sections, i < s.slot * slotSize) :
    (fill sections file)[i]? = file[i]? := by
  induction sections generalizing file with
  | nil => rfl
  | cons s rest ih =>
    rw [List.forall_mem_cons] at hfront
    have hbefore := hfront.1
    change (fill rest (overwrite file (s.slot * slotSize) s.contents))[i]? = _
    rw [ih (by rwa [length_overwrite]) hfront.2, getElem?_overwrite _ _ hi, if_neg (by omega)]

/-- The contents of a section are in its slot, if no other section has the slot. -/
private theorem getElem?_fill {sections : List DraftSection} {file : Text}
    (h : ∀ s ∈ sections, s.contents.length ≤ slotSize)
    (hslots : (sections.map (·.slot)).Nodup) {s : DraftSection} (hs : s ∈ sections)
    (hroom : (s.slot + 1) * slotSize ≤ file.length) {i : Nat} (hi : i < s.contents.length) :
    (fill sections file)[s.slot * slotSize + i]? = s.contents[i]? := by
  induction sections generalizing file with
  | nil => simp at hs
  | cons t rest ih =>
    rw [List.forall_mem_cons] at h
    rw [List.map_cons, List.nodup_cons] at hslots
    change (fill rest (overwrite file (t.slot * slotSize) t.contents))[_]? = _
    rcases List.mem_cons.1 hs with rfl | hs
    · -- what is written behind it goes to other slots
      have hlength := h.1
      rw [Nat.add_mul] at hroom
      have hother : ∀ u ∈ rest, (s.slot * slotSize + i) / slotSize ≠ u.slot := by
        intro u hu heq
        rw [Nat.div_eq_of_lt_le (Nat.le_add_right _ _) (by rw [Nat.add_mul]; omega)] at heq
        exact hslots.1 (heq ▸ List.mem_map_of_mem hu)
      rw [getElem?_fill_of_forall h.2 (by rw [length_overwrite]; omega) hother,
        getElem?_overwrite _ _ (by omega), if_pos (by omega), Nat.add_sub_cancel_left]
    · exact ih h.2 hslots.2 hs (by rwa [length_overwrite])

/-- Sections with slots of their own may be put at their places in any order. -/
private theorem fill_perm {sections others : List DraftSection} (h : sections.Perm others)
    (hlength : ∀ s ∈ sections, s.contents.length ≤ slotSize)
    (hslots : ∀ s ∈ sections, ∀ t ∈ sections, s.slot = t.slot → s = t) (file : Text) :
    fill sections file = fill others file := by
  refine h.foldl_eq' (fun s hs t ht file => ?_) file
  by_cases hst : s.slot = t.slot
  · rw [hslots s hs t ht hst]
  · refine overwrite_comm file ?_
    have hs' := hlength s hs
    have ht' := hlength t ht
    -- the earlier one of the two slots ends where the other one starts, or before
    rcases Nat.lt_or_gt_of_ne hst with hlt | hlt
    · have := Nat.mul_le_mul_right slotSize (Nat.succ_le_of_lt hlt)
      rw [Nat.succ_mul] at this
      omega
    · have := Nat.mul_le_mul_right slotSize (Nat.succ_le_of_lt hlt)
      rw [Nat.succ_mul] at this
      omega

/-! ## Drafts that can be read back -/

/-- The load commands of the draft can be read back: the sizes of the sections are no wider than
addresses. -/
structure Stated (d : Draft) : Prop extends Framed d where
  size_lt : d.is64 = false → ∀ s ∈ d.sections, s.size.toNat < 2 ^ 32

/-- The sections of the draft can be read back as well: their contents do not reach beyond their
slots. -/
structure Fitting (d : Draft) : Prop extends Stated d where
  length_le : ∀ s ∈ d.sections, s.isZeroFill = false → s.contents.length ≤ slotSize

/-- The draft as an image, with the sections written in the order of a list. -/
def encodeIn (d : Draft) (sections : List DraftSection) : Except DraftError Text := do
  let head := d.head (← d.commands)
  if slotSize < head.length then throw .commandsOverflow
  let empty : Text := List.replicate (storedSlots * slotSize) 0
  let stored := sections.filter fun s => !s.isZeroFill && !s.contents.isEmpty
  return stored.foldl (fun file s => overwrite file (s.slot * slotSize) s.contents)
    (overwrite empty 0 head)

theorem encode_eq_encodeIn (d : Draft) : d.encode = d.encodeIn d.sections := rfl

/-- The sections with bytes in the file. -/
private def storedSections (sections : List DraftSection) : List DraftSection :=
  sections.filter fun s => !s.isZeroFill && !s.contents.isEmpty

/-- The file with the header and the load commands alone. -/
private def headFile (d : Draft) (commands : List Text) : Text :=
  overwrite (List.replicate (storedSlots * slotSize) 0) 0 (d.head commands)

/-- Before the sections are filled in, the file has its final length. -/
private theorem length_headFile (d : Draft) (commands : List Text) :
    (d.headFile commands).length = storedSlots * slotSize := by
  rw [headFile, length_overwrite, List.length_replicate]

private theorem encodeIn_eq (d : Draft) (sections : List DraftSection) :
    d.encodeIn sections = (do
      let commands ← d.commands
      if slotSize < (d.head commands).length then throw .commandsOverflow
      return fill (storedSections sections) (d.headFile commands)) := rfl

/-- A draft is written if and only if its load commands fit in front of the first slot. -/
private theorem encode_eq_ok_iff {d : Draft} {bytes : Text} :
    d.encode = .ok bytes ↔ ∃ commands, d.commands = .ok commands ∧
      (d.head commands).length ≤ slotSize ∧
      fill (storedSections d.sections) (d.headFile commands) = bytes := by
  rw [encode_eq_encodeIn, encodeIn_eq, Except.bind_eq_ok_iff]
  refine exists_congr fun commands => and_congr_right fun _ => ?_
  rw [Except.ite_throw_eq_ok_iff, Nat.not_lt]
  exact and_congr_right fun _ => ⟨Except.ok.inj, congrArg _⟩

namespace Framed

variable {d : Draft} (hd : d.Framed)
include hd

/-- The slots have the numbers from one to eleven. -/
theorem slot_le {s : DraftSection} (hs : s ∈ d.sections) : 1 ≤ s.slot ∧ s.slot ≤ 11 := by
  have hall : ∀ t ∈ emptySections, 1 ≤ t.slot ∧ t.slot ≤ 11 := by decide
  exact hall s.frame (hd.frame_mem hs)

/-- The section without bytes in the file is behind all others. -/
theorem isZeroFill_iff {s : DraftSection} (hs : s ∈ d.sections) :
    s.isZeroFill = true ↔ s.slot = 11 := by
  have hall : ∀ t ∈ emptySections, (t.isZeroFill = true ↔ t.slot = 11) := by decide
  exact hall s.frame (hd.frame_mem hs)

/-- The last slot is for the section without bytes in the file. -/
theorem slot_le_of_filled {s : DraftSection} (hs : s ∈ d.sections)
    (hfilled : s.isZeroFill = false) : s.slot ≤ 10 := by
  have hslot := hd.slot_le hs
  have hne : s.slot ≠ 11 := fun heq => Bool.eq_false_iff.1 hfilled ((hd.isZeroFill_iff hs).2 heq)
  omega

/-- The offset of a section is that of its slot, and no wider than 32 bits. -/
theorem toNat_offset {s : DraftSection} (hs : s ∈ d.sections) :
    s.offset.toUInt32.toNat = s.slot * slotSize := by
  have hslot := (hd.slot_le hs).2
  have hoffset : (s.slot * slotSize).toUInt64.toNat = s.slot * slotSize :=
    UInt64.toNat_ofNat_of_lt' (by rw [slotSize, UInt64.size]; omega)
  rw [DraftSection.offset, UInt64.toNat_toUInt32, hoffset, slotSize]
  omega

/-- A section with bytes in the file is read at the offset of its slot. -/
theorem offset_imageSection {s : DraftSection} (hs : s ∈ d.sections)
    (hfilled : s.isZeroFill = false) :
    (d.imageSection s).offset.toNat = s.slot * slotSize := by
  change (if s.isZeroFill then 0 else s.offset.toUInt32).toNat = _
  rw [hfilled, if_neg Bool.false_ne_true, hd.toNat_offset hs]

/-- A section is read with the type that it was written with. -/
theorem isZeroFill_imageSection {s : DraftSection} (hs : s ∈ d.sections) :
    (d.imageSection s).isZeroFill = s.isZeroFill := by
  have hall : ∀ t ∈ emptySections, isZeroFill t.flags = t.isZeroFill := by decide
  exact hall s.frame (hd.frame_mem hs)

theorem length_sections : d.sections.length = 11 := by
  have hlength := congrArg List.length hd.frames_eq
  rwa [List.length_map] at hlength

/-- The sections are those of the empty draft, changed one by one. -/
theorem exists_eq_map : ∃ g : DraftSection → DraftSection,
    (∀ t ∈ emptySections, (g t).frame = t) ∧ d.sections = emptySections.map g := by
  let g (t : DraftSection) : DraftSection := (d.section? t.segment t.name).getD t
  have hg : ∀ s ∈ d.sections, g s.frame = s := by
    intro s hs
    change (d.section? s.segment s.name).getD s.frame = s
    rw [hd.section?_eq hs, Option.getD_some]
  refine ⟨g, fun t ht => ?_, ?_⟩
  · rw [← hd.frames_eq] at ht
    obtain ⟨s, hs, rfl⟩ := List.mem_map.1 ht
    rw [hg s hs]
  · rw [← hd.frames_eq, List.map_map]
    exact ((List.map_congr_left hg).trans (List.map_id _)).symm

end Framed

/-- The sections that are filled in are those with contents in the file. -/
private theorem mem_storedSections {sections : List DraftSection} {s : DraftSection} :
    s ∈ storedSections sections ↔ s ∈ sections ∧ s.isZeroFill = false ∧ s.contents ≠ [] := by
  simp [storedSections]

namespace Fitting

variable {d : Draft} (hd : d.Fitting)
include hd

private theorem length_stored : ∀ s ∈ storedSections d.sections, s.contents.length ≤ slotSize := by
  intro s hs
  obtain ⟨hs, hfilled, -⟩ := mem_storedSections.1 hs
  exact hd.length_le s hs hfilled

/-- The size of a section with bytes in the file is their number. -/
theorem toNat_size {s : DraftSection} (hs : s ∈ d.sections) (hfilled : s.isZeroFill = false) :
    s.size.toNat = s.contents.length := by
  have hlength := hd.length_le s hs hfilled
  rw [slotSize] at hlength
  rw [DraftSection.size, if_pos (hd.fixedSize_eq s hs hfilled)]
  exact UInt64.toNat_ofNat_of_lt' (by rw [UInt64.size]; omega)

/-- A section with bytes in the file is no larger than a slot. -/
theorem toNat_size_le {s : DraftSection} (hs : s ∈ d.sections) (hfilled : s.isZeroFill = false) :
    s.size.toNat ≤ slotSize :=
  (hd.toNat_size hs hfilled).trans_le (hd.length_le s hs hfilled)

/-- The order in which the sections are written makes no difference. -/
theorem encodeIn_perm {sections : List DraftSection} (h : sections.Perm d.sections) :
    d.encodeIn sections = d.encode := by
  have hfill (file : Text) : fill (storedSections d.sections) file =
      fill (storedSections sections) file := by
    refine fill_perm (h.symm.filter _) hd.length_stored (fun s hs t ht => ?_) file
    exact hd.eq_of_slot (mem_storedSections.1 hs).1 (mem_storedSections.1 ht).1
  rw [encode_eq_encodeIn, encodeIn_eq, encodeIn_eq]
  simp only [hfill]

end Fitting

namespace Stated

variable {d : Draft} (hd : d.Stated)
include hd

/-- The sections can be read back from the load commands. -/
theorem encodable {s : DraftSection} (hs : s ∈ d.sections) : d.Encodable s := by
  have hall : ∀ t ∈ emptySections, t.name.length ≤ 16 ∧ 0 ∉ t.name ∧ t.segment.length ≤ 16 ∧
      0 ∉ t.segment := by
    decide
  obtain ⟨hname, hname', hsegment, hsegment'⟩ := hall s.frame (hd.frame_mem hs)
  have hslot := (hd.slot_le hs).2
  refine ⟨hname, hname', hsegment, hsegment', fun hwide => ?_, fun hwide => hd.size_lt hwide s hs⟩
  have hoffset : (s.slot * slotSize).toUInt64.toNat = s.slot * slotSize :=
    UInt64.toNat_ofNat_of_lt' (by rw [slotSize, UInt64.size]; omega)
  rw [addressOf, DraftSection.offset, base, hwide, UInt64.toNat_add, hoffset, slotSize]
  change (0x10000 + _) % _ < _
  omega

end Stated

/-- The sections of an image of the draft: those that are not empty. -/
def imageSections (d : Draft) : List Section :=
  (d.sections.filter fun s => s.size ≠ 0).map d.imageSection

/-- The sections that the command of a segment lists. -/
def spanSections (d : Draft) (span : Span) : List DraftSection :=
  d.sections.filter fun s => s.segment = span.name && s.size ≠ 0

/-- How the load commands of the draft are read: the segment commands list the sections, and the
encryption commands tell the ranges of theirs. -/
def loadReadings (d : Draft) : List LoadReading :=
  ([], fun body => ∃ segment, body = .segment segment) ::
    spans.map (fun span => ((d.spanSections span).map d.imageSection,
      fun body => ∃ segment, body = .segment segment)) ++
    d.encryptions.map (fun e => ([], fun body => ∃ s, d.section? e.segment e.sectionName = some s ∧
      body = .encryption (encryptionRange s e.system))) ++
    d.loads.map fun _ => ([], fun body => ∀ range, body ≠ .encryption range)

namespace Stated

variable {d : Draft} (hd : d.Stated)
include hd

/-- The sections of the segments, in order, are all sections. -/
private theorem flatten_loadReadings : (d.loadReadings.map (·.1)).flatten = d.imageSections := by
  obtain ⟨g, hg, hsections⟩ := hd.exists_eq_map
  have hspan (span : Span) : d.spanSections span =
      ((emptySections.filter fun s => s.segment = span.name).map g).filter fun s => s.size ≠ 0 := by
    have hsegment : ∀ t ∈ emptySections, (g t).segment = t.segment :=
      fun t ht => congrArg (·.segment) (hg t ht)
    rw [spanSections, hsections, List.filter_map, List.filter_map, List.filter_filter]
    congr 1
    refine List.filter_congr fun t ht => ?_
    rw [Function.comp_apply, Function.comp_apply, hsegment t ht, Bool.and_comm]
  have hempty : emptySections =
      (spans.map fun span => emptySections.filter fun s => s.segment = span.name).flatten := rfl
  have hall : d.imageSections =
      (spans.map fun span => (d.spanSections span).map d.imageSection).flatten := by
    simp only [hspan]
    rw [imageSections, hsections, hempty, List.map_flatten, List.filter_flatten, List.map_flatten]
    simp only [List.map_map]
    rfl
  rw [hall, loadReadings]
  simp [Function.comp_def]

/-- Every load command is read. -/
private theorem isRead_commands {commands : List Text} (hcommands : d.commands = .ok commands)
    (hloads : ∀ raw ∈ d.loads, Load.IsPlain d.order raw) :
    List.Forall₂ (Load.IsRead d.order) commands d.loadReadings := by
  obtain ⟨encryptions, hencryptions, hcommands⟩ := Except.bind_eq_ok_iff.1 hcommands
  obtain rfl := Except.ok.inj hcommands
  have hspan (span : Span) : Load.IsRead d.order (d.spanCommand span)
      ((d.spanSections span).map d.imageSection,
        fun body => ∃ segment, body = .segment segment) := by
    refine isRead_segmentCommand (fun s hs => hd.encodable (List.mem_filter.1 hs).1) ?_
    exact (List.length_filter_le _ _).trans_eq hd.length_sections
  refine List.rel_append (List.rel_append (.cons ?_ ?_) ?_) ?_
  · exact isRead_segmentCommand (List.forall_mem_nil _) (by decide)
  · rw [List.forall₂_map_left_iff, List.forall₂_map_right_iff]
    exact List.forall₂_same.2 fun span _ => hspan span
  · rw [List.forall₂_map_right_iff]
    have hwritten := (Except.mapM_eq_ok_iff fun _ _ _ => Iff.rfl).1 hencryptions
    exact hwritten.flip.imp fun raw e he => isRead_encryptionCommand he
  · rw [List.forall₂_map_right_iff]
    exact List.forall₂_same.2 fun raw hraw => (hloads raw hraw).isRead

end Stated

/-- The header that a draft is written with. -/
private def fileHeader (d : Draft) (commands : List Text) : FileHeader where
  magic := if d.is64 then Magic.image64 else Magic.image32
  cpu := d.cpu
  sub := d.sub
  type := FileType.execute
  commandCount := commands.length.toUInt32
  commandSize := commands.flatten.length.toUInt32
  flags := 0
  reserved := 0

private theorem head_eq (d : Draft) (commands : List Text) :
    d.head commands = (d.fileHeader commands).encode d.order ++ commands.flatten := rfl

/-- The header of a file is that of an image. -/
private theorem isImage_fileHeader (d : Draft) (commands : List Text) :
    (d.fileHeader commands).IsImage := by
  cases hwide : d.is64 <;> simp [FileHeader.IsImage, fileHeader, hwide]

/-- Every command takes up at least one byte. -/
private theorem length_le_length_flatten {order : ByteOrder} {raws : List Text}
    {readings : List LoadReading} (h : List.Forall₂ (Load.IsRead order) raws readings) :
    raws.length ≤ raws.flatten.length := by
  induction h with
  | nil => exact Nat.zero_le _
  | cons hraw _ ih =>
    have hlength := hraw.framed.length_le
    rw [List.length_cons, List.flatten_cons, List.length_append]
    omega

end Draft

/-- The image displays a draft that was written as a file: it has the bytes of the file, the
sections of the draft that are not empty, marked as the load commands tell, and the commands
themselves. -/
structure Image.Displays (image : Image) (d : Draft) (bytes : Text) : Prop where
  order_eq : image.order = d.order
  is64_eq : image.is64 = d.is64
  size_eq : image.size = bytes.length
  contents_eq : image.contents = bytes.toArray
  sections_eq : image.sections = Image.markEncrypted image.loads d.imageSections
  loads_read : List.Forall₂ (fun load reading => reading.2 load.body) image.loads d.loadReadings

namespace Draft

/-- A stretch of the file that is known byte by byte. -/
private theorem take_drop_eq {file bytes : Text} {offset : Nat}
    (h : ∀ i < bytes.length, file[offset + i]? = bytes[i]?) :
    (file.drop offset).take bytes.length = bytes := by
  refine List.ext_getElem? fun i => ?_
  by_cases hi : i < bytes.length
  · rw [List.getElem?_take_of_lt hi, List.getElem?_drop, h i hi]
  · rw [List.getElem?_take_eq_none (by omega), List.getElem?_eq_none (by omega)]

variable {d : Draft} {bytes : Text}

/-- A draft is written if its load commands fit into the slot of the header. -/
theorem exists_encode {commands : List Text} (hcommands : d.commands = .ok commands)
    (hhead : (d.head commands).length ≤ slotSize) : ∃ bytes, d.encode = .ok bytes :=
  ⟨_, encode_eq_ok_iff.2 ⟨commands, hcommands, hhead, rfl⟩⟩

/-- A draft without encryption and further load commands is always written. -/
theorem Framed.exists_encode (hd : d.Framed) (hencryptions : d.encryptions = [])
    (hloads : d.loads = []) : ∃ bytes, d.encode = .ok bytes := by
  have hcommands : d.commands =
      .ok (d.segmentCommand "__PAGEZERO" 0 d.base 0 0 0 [] :: spans.map d.spanCommand) := by
    rw [commands, hencryptions, hloads]
    change Except.ok (_ :: spans.map d.spanCommand ++ [] ++ []) = _
    rw [List.append_nil, List.append_nil]
  refine Draft.exists_encode hcommands ?_
  -- each segment has at most the eleven sections of the draft
  have hsections (span : Span) : (d.spanCommand span).length ≤ 72 + 80 * 11 := by
    have hcount := (List.length_filter_le (fun s => s.segment = span.name && s.size ≠ 0)
      d.sections).trans_eq hd.length_sections
    rw [spanCommand, length_segmentCommand]
    split <;> omega
  have hzero : (d.segmentCommand "__PAGEZERO" 0 d.base 0 0 0 []).length ≤ 72 := by
    rw [length_segmentCommand]
    split <;> simp
  have hheader (header : FileHeader) : (header.encode d.order).length ≤ 32 := by
    rw [FileHeader.length_encode]
    exact header.size_le
  -- so all commands together are shorter than a slot
  simp only [head, spans, List.map_cons, List.map_nil, List.flatten_cons, List.flatten_nil,
    List.length_append, List.length_nil, slotSize]
  grind

/-- Every file has the same size. -/
theorem length_of_encode (hencode : d.encode = .ok bytes) :
    bytes.length = storedSlots * slotSize := by
  obtain ⟨commands, -, -, rfl⟩ := encode_eq_ok_iff.1 hencode
  rw [length_fill, length_headFile]

/-- The header and the load commands are at the start of the file, however long the contents of the
sections are. -/
private theorem Framed.exists_file_eq (hd : d.Framed) {commands : List Text}
    (hhead : (d.head commands).length ≤ slotSize) :
    ∃ tail, fill (storedSections d.sections) (d.headFile commands) =
      (d.fileHeader commands).encode d.order ++ commands.flatten ++ tail := by
  -- no section is written over the header and the commands, since slots start behind them
  have hbyte : ∀ i < (d.head commands).length,
      (fill (storedSections d.sections) (d.headFile commands))[0 + i]? =
        (d.head commands)[i]? := by
    intro i hi
    have hroom : i < (List.replicate (storedSlots * slotSize) (0 : UInt8)).length := by
      rw [List.length_replicate, storedSlots]
      omega
    have hfront : ∀ s ∈ storedSections d.sections, i < s.slot * slotSize := by
      intro s hs
      obtain ⟨hs, -⟩ := mem_storedSections.1 hs
      have hslot := Nat.mul_le_mul_right slotSize (hd.slot_le hs).1
      omega
    rw [Nat.zero_add, getElem?_fill_of_lt (by rwa [headFile, length_overwrite]) hfront, headFile,
      getElem?_overwrite _ _ hroom, if_pos (by omega), Nat.sub_zero]
  obtain ⟨tail, htail⟩ := List.prefix_iff_eq_take.2 (take_drop_eq hbyte).symm
  exact ⟨tail, htail.symm⟩

/-- The file of a draft is opened as an image that displays the draft. -/
theorem Stated.exists_displays (hd : d.Stated)
    (hloads : ∀ raw ∈ d.loads, Load.IsPlain d.order raw) (hencode : d.encode = .ok bytes) :
    ∃ image, Image.ofSlice bytes.toArray (some bytes.length) {} = .ok image ∧
      image.Displays d bytes := by
  obtain ⟨commands, hcommands, hhead, hfile⟩ := encode_eq_ok_iff.1 hencode
  have hread := hd.isRead_commands hcommands hloads
  obtain ⟨loads, hparse, hbodies⟩ := Load.parseAll_flatten hread 0 (d.fileHeader commands).size
  rw [hd.flatten_loadReadings] at hparse
  obtain ⟨tail, htail⟩ := hd.exists_file_eq hhead
  rw [hfile] at htail
  -- the commands are so few and short that the words of the header hold their number and size
  have hlength : commands.flatten.length ≤ slotSize := by
    rw [head_eq, List.length_append] at hhead
    omega
  rw [slotSize] at hlength
  have hsize : (d.fileHeader commands).commandSize.toNat = commands.flatten.length :=
    UInt32.toNat_ofNat_of_lt' (by rw [UInt32.size]; omega)
  have hcount : (d.fileHeader commands).commandCount.toNat = commands.length := by
    have hfew := length_le_length_flatten hread
    exact UInt32.toNat_ofNat_of_lt' (by rw [UInt32.size]; omega)
  have hroom : (d.fileHeader commands).size + commands.flatten.length ≤
      Image.sliceSize {} (some bytes.length) := by
    change _ ≤ bytes.length
    rw [htail, List.length_append, List.length_append, FileHeader.length_encode]
    omega
  have hopen := Image.ofSlice_encode_append d.order (d.isImage_fileHeader commands) hsize tail hroom
  rw [← htail, hcount, hparse] at hopen
  refine ⟨_, hopen, rfl, ?_, rfl, ?_, rfl, hbodies⟩
  · change decide ((if d.is64 then Magic.image64 else Magic.image32) = Magic.image64) = d.is64
    cases d.is64 <;> decide
  · change bytes.toArray.extract 0 bytes.length = bytes.toArray
    simp

/-- A stretch of the contents of a section is at its place in the file. -/
theorem Fitting.take_drop_file (hd : d.Fitting) (hencode : d.encode = .ok bytes) {s : DraftSection}
    (hs : s ∈ d.sections) (hfilled : s.isZeroFill = false) {index count : Nat}
    (hcount : index + count ≤ s.contents.length) :
    (bytes.drop (s.slot * slotSize + index)).take count = (s.contents.drop index).take count := by
  obtain ⟨commands, -, -, rfl⟩ := encode_eq_ok_iff.1 hencode
  have hslots : ((storedSections d.sections).map (·.slot)).Nodup :=
    hd.nodup_slots.sublist (List.filter_sublist.map _)
  have hroom : (s.slot + 1) * slotSize ≤ (d.headFile commands).length := by
    rw [length_headFile, storedSlots]
    exact Nat.mul_le_mul_right _ (Nat.succ_le_succ (hd.slot_le_of_filled hs hfilled))
  -- the stretch is compared byte by byte, so that its length is brought into the form of the lemma
  have hstretch : ((s.contents.drop index).take count).length = count := by
    rw [List.length_take, List.length_drop]
    omega
  conv_lhs => rw [← hstretch]
  refine take_drop_eq fun i hi => ?_
  rw [hstretch] at hi
  have hstored : s ∈ storedSections d.sections :=
    mem_storedSections.2 ⟨hs, hfilled, List.ne_nil_of_length_pos (by omega)⟩
  rw [Nat.add_assoc, getElem?_fill hd.length_stored hslots hstored hroom (by omega),
    List.getElem?_take_of_lt hi, List.getElem?_drop]

end Draft

/-! ## Regular drafts -/

/-- The image shows what the draft says. -/
structure Image.Shows (image : Image) (d : Draft) : Prop where
  regular : d.Regular
  order_eq : image.order = d.order
  is64_eq : image.is64 = d.is64
  size_eq : image.size = Draft.storedSlots * slotSize
  sections_eq : image.sections = d.imageSections
  /-- No command tells of encryption or of chained fixups. -/
  loads_eq : ∀ load ∈ image.loads, ∃ segment, load.body = .segment segment
  /-- The bytes of every slot are at their place in the file. -/
  bytes_eq : ∀ slot ∈ List.range' 1 10, ∀ index count, index + count ≤ (d.stored slot).length →
    Image.bytesAt image.contents (slot * slotSize + index : Nat) count =
      ((d.stored slot).drop index).take count

namespace Draft

namespace Regular

variable {d : Draft} (hd : d.Regular)
include hd

/-- No section of a regular draft is longer than its slot. -/
theorem fitting : d.Fitting := by
  have hfixed : ∀ t ∈ emptySections, t.fixedSize = 0 := by decide
  refine ⟨⟨⟨?_, fun s hs _ => ?_⟩, fun _ s hs => ?_⟩, fun s hs _ => ?_⟩
  · rw [hd.sections_eq]
    rfl
  all_goals
    rw [hd.sections_eq, layOut, List.mem_map] at hs
    obtain ⟨t, ht, rfl⟩ := hs
    have hlength := hd.length_le t.slot
  · exact hfixed t ht
  · rw [DraftSection.size, if_pos (hfixed t ht)]
    rw [slotSize] at hlength
    have hsize : (d.stored t.slot).length.toUInt64.toNat = (d.stored t.slot).length :=
      UInt64.toNat_ofNat_of_lt' (by rw [UInt64.size]; omega)
    rw [hsize]
    omega
  · exact hlength

/-- Every load command of a regular draft is a segment command. -/
private theorem loads_eq_of_displays {image : Image} {bytes : Text} (h : image.Displays d bytes) :
    ∀ load ∈ image.loads, ∃ segment, load.body = .segment segment := by
  have hread := h.loads_read
  rw [loadReadings, hd.encryptions_eq, hd.loads_eq, List.map_nil, List.map_nil, List.append_nil,
    List.append_nil] at hread
  intro load hload
  obtain ⟨reading, hreading, hbody⟩ := hread.exists_of_mem hload
  rcases List.mem_cons.1 hreading with rfl | hreading
  · exact hbody
  · obtain ⟨span, -, rfl⟩ := List.mem_map.1 hreading
    exact hbody

end Regular

/-- Without encryption commands no section is marked. -/
private theorem markEncrypted_imageSections {d : Draft} {loads : List Load}
    (h : ∀ load ∈ loads, ∃ segment, load.body = .segment segment) :
    Image.markEncrypted loads d.imageSections = d.imageSections := by
  have hranges : Image.encryptionRanges loads = [] := by
    refine List.filterMap_eq_nil_iff.2 fun load hload => ?_
    obtain ⟨segment, hbody⟩ := h load hload
    rw [hbody]
  rw [Image.markEncrypted, hranges, imageSections, List.map_map]
  refine List.map_congr_left fun s _ => ?_
  simp only [Function.comp_apply, List.any_nil, Bool.and_false]
  rfl

/-- A regular draft is written as a file, and the file is opened as an image that shows the
draft. -/
theorem exists_shows {d : Draft} (hd : d.Regular) :
    ∃ bytes image, d.encode = .ok bytes ∧
      Image.ofSlice bytes.toArray (some bytes.length) {} = .ok image ∧ image.Shows d := by
  obtain ⟨bytes, hencode⟩ :=
    hd.fitting.toFramed.exists_encode hd.encryptions_eq hd.loads_eq
  have hloads : ∀ raw ∈ d.loads, Load.IsPlain d.order raw := by
    rw [hd.loads_eq]
    nofun
  obtain ⟨image, hopen, hdisplays⟩ := hd.fitting.exists_displays hloads hencode
  have hsize := hdisplays.size_eq.trans (length_of_encode hencode)
  have hsegments := hd.loads_eq_of_displays hdisplays
  -- a draft that only records were written to has no encryption commands, so no section is marked
  refine ⟨bytes, image, hencode, hopen, hd, hdisplays.order_eq, hdisplays.is64_eq,
    hsize, ?_, hsegments, fun slot hslot index count hcount => ?_⟩
  · rw [hdisplays.sections_eq, markEncrypted_imageSections hsegments]
  · have hall : ∀ slot ∈ List.range' 1 10, ∃ t ∈ emptySections, t.slot = slot ∧
        t.isZeroFill = false := by decide
    obtain ⟨t, ht, rfl, hfilled⟩ := hall slot hslot
    have hs : { t with contents := d.stored t.slot } ∈ d.sections := by
      rw [hd.sections_eq]
      exact List.mem_map.2 ⟨t, ht, rfl⟩
    rw [hdisplays.contents_eq, Image.bytesAt_toArray]
    exact hd.fitting.take_drop_file hencode hs hfilled hcount

end Draft

end ObjcLens
