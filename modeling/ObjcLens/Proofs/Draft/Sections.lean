import Mathlib
import ObjcLens.Proofs.Draft.File
import ObjcLens.Proofs.Image.Marked

/-!
# Sections are read back one by one

However a draft was put together, its sections are found in the image that it is opened as: at
their addresses, with their sizes and with the bytes that were added to them. A section is marked as
encrypted if an active encryption command was added for it.

There is one condition. The bytes that are added to a section are refused where its slot ends, but
the zeros of padding are not: a section that was padded beyond its slot writes over those behind it,
or ends behind the end of the file.

## Main results

* `mem_encryptionRanges_iff`: the ranges of the image are those of the encryption commands.
* `encrypted_markedSection_iff`: the marks of the sections.
* `sections_read_back`: the sections of a draft are read back.
* `sections_not_read_back`: a section that was padded beyond its slot is not.
-/

namespace ObjcLens

namespace Draft

variable {d : Draft} {bytes : Text} {image : Image} {s t : DraftSection}

/-! ## Encryption -/

/-- The ranges of the image that are really encrypted are those of the sections that encryption
commands were added for. -/
theorem mem_encryptionRanges_iff (h : image.Displays d bytes) {r : EncryptionRange} :
    r ∈ Image.encryptionRanges image.loads ↔
      (∃ e ∈ d.encryptions, ∃ t, d.section? e.segment e.sectionName = some t ∧
        r = encryptionRange t e.system) ∧ r.isActive = true := by
  rw [Image.mem_encryptionRanges_iff]
  refine and_congr_left fun _ => ⟨?_, ?_⟩
  · rintro ⟨load, hload, hbody⟩
    obtain ⟨reading, hreading, hread⟩ := h.loads_read.exists_of_mem hload
    rw [hbody] at hread
    simp only [loadReadings, List.mem_append, List.mem_cons, List.mem_map] at hreading
    -- of the four kinds of commands, the encryption commands alone tell a range
    rcases hreading with ((rfl | ⟨span, -, rfl⟩) | ⟨e, he, rfl⟩) | ⟨raw, -, rfl⟩
    · obtain ⟨segment, hsegment⟩ := hread
      cases hsegment
    · obtain ⟨segment, hsegment⟩ := hread
      cases hsegment
    · obtain ⟨t, ht, hrange⟩ := hread
      exact ⟨e, he, t, ht, LoadBody.encryption.inj hrange⟩
    · exact absurd rfl (hread r)
  · rintro ⟨e, he, t, ht, rfl⟩
    have hreading : (([], fun body => ∃ s, d.section? e.segment e.sectionName = some s ∧
        body = .encryption (encryptionRange s e.system)) : LoadReading) ∈ d.loadReadings := by
      simp only [loadReadings, List.mem_append, List.mem_map]
      exact .inl (.inr ⟨e, he, rfl⟩)
    obtain ⟨load, hload, t', ht', hbody⟩ := h.loads_read.flip.exists_of_mem hreading
    rw [ht, Option.some.injEq] at ht'
    exact ⟨load, hload, ht' ▸ hbody⟩

/-- An encryption range has the size of its section. -/
private theorem toNat_size_encryptionRange (hd : d.Fitting) (hs : s ∈ d.sections)
    (hfilled : s.isZeroFill = false) (system : UInt32) :
    (encryptionRange s system).size.toNat = s.size.toNat := by
  have hlength := hd.toNat_size_le hs hfilled
  change s.size.toUInt32.toNat = _
  rw [slotSize] at hlength
  rw [UInt64.toNat_toUInt32]
  omega

/-- The range of a section touches the bytes of the same section and of no other. -/
private theorem overlaps_encryptionRange_iff (hd : d.Fitting) (hs : s ∈ d.sections)
    (hfilled : s.isZeroFill = false) (hsize : s.size ≠ 0) (ht : t ∈ d.sections) {system : UInt32}
    (hactive : (encryptionRange t system).isActive = true) :
    (encryptionRange t system).overlaps (d.imageSection s).offset.toUInt64 s.size = true ↔
      s = t := by
  have hpos : 0 < (d.imageSection s).size.toNat :=
    Nat.pos_of_ne_zero fun hzero => hsize (UInt64.toNat_inj.1 hzero)
  have hrange := (EncryptionRange.isActive_iff.1 hactive).2
  have hslot := hd.slot_le_of_filled hs hfilled
  have hoffset := hd.offset_imageSection hs hfilled
  have hstart : (encryptionRange t system).offset.toNat = t.slot * slotSize := hd.toNat_offset ht
  have hlength : (d.imageSection s).size.toNat ≤ slotSize := hd.toNat_size_le hs hfilled
  have hends : (d.imageSection s).EndsBehind (encryptionRange t system) := by
    rw [slotSize] at hoffset hlength
    exact .inl (by omega)
  have hiff := EncryptionRange.overlaps_iff hpos hrange
  rw [Section.inter_nonempty_iff hpos hrange, and_iff_left hends, hoffset, hstart] at hiff
  -- two stretches that touch are in the same slot, since none of them ends behind its own
  refine hiff.trans ⟨fun htouch => hd.eq_of_slot hs ht ?_, ?_⟩
  · cases hzero : t.isZeroFill with
    | true =>
      -- the range starts where the last slot with bytes in the file ends
      rw [(hd.isZeroFill_iff ht).1 hzero] at htouch
      rw [slotSize] at htouch hlength
      omega
    | false =>
      have hstop : (encryptionRange t system).size.toNat ≤ slotSize := by
        rw [toNat_size_encryptionRange hd ht hzero]
        exact hd.toNat_size_le ht hzero
      rw [slotSize] at htouch hlength hstop
      omega
  · rintro rfl
    omega

/-- The section of the image, with its mark. -/
def markedSection (d : Draft) (loads : List Load) (s : DraftSection) : Section :=
  { d.imageSection s with
    encrypted := !(d.imageSection s).isZeroFill && s.size != 0 &&
      (Image.encryptionRanges loads).any
        (·.overlaps (d.imageSection s).offset.toUInt64 s.size) }

/-- A section is marked if an encryption command with a system was added for it. -/
theorem encrypted_markedSection_iff (hd : d.Fitting) (h : image.Displays d bytes)
    (hs : s ∈ d.sections) (hsize : s.size ≠ 0) :
    (d.markedSection image.loads s).encrypted = true ↔
      s.isZeroFill = false ∧ ∃ e ∈ d.encryptions,
        e.segment = s.segment ∧ e.sectionName = s.name ∧ e.system ≠ 0 := by
  rw [markedSection, hd.isZeroFill_imageSection hs, Bool.and_eq_true, Bool.and_eq_true,
    Bool.not_eq_true', bne_iff_ne, and_iff_left hsize, List.any_eq_true]
  refine and_congr_right fun hfilled => ⟨?_, ?_⟩
  · rintro ⟨r, hr, hoverlaps⟩
    obtain ⟨⟨e, he, t, ht, rfl⟩, hactive⟩ := (mem_encryptionRanges_iff h).1 hr
    obtain ⟨hmem, hsegment, hname⟩ := mem_of_section?_eq_some ht
    obtain rfl := (overlaps_encryptionRange_iff hd hs hfilled hsize hmem hactive).1 hoverlaps
    exact ⟨e, he, hsegment.symm, hname.symm, (EncryptionRange.isActive_iff.1 hactive).1⟩
  · rintro ⟨e, he, hsegment, hname, hsystem⟩
    have hfound : d.section? e.segment e.sectionName = some s := by
      rw [hsegment, hname, hd.section?_eq hs]
    have hactive : (encryptionRange s e.system).isActive = true := by
      refine EncryptionRange.isActive_iff.2 ⟨hsystem, ?_⟩
      rw [toNat_size_encryptionRange hd hs hfilled]
      exact Nat.pos_of_ne_zero fun hzero => hsize (UInt64.toNat_inj.1 hzero)
    exact ⟨_, (mem_encryptionRanges_iff h).2 ⟨⟨e, he, s, hfound, rfl⟩, hactive⟩,
      (overlaps_encryptionRange_iff hd hs hfilled hsize hs hactive).2 rfl⟩

/-! ## Reading back -/

/-- A section that is not empty is found by its names. -/
theorem section?_eq_markedSection (hd : d.Framed) (h : image.Displays d bytes) (hs : s ∈ d.sections)
    (hsize : s.size ≠ 0) :
    image.section? s.segment s.name = some (d.markedSection image.loads s) := by
  have hsections : image.sections =
      (d.sections.filter fun s => s.size ≠ 0).map (d.markedSection image.loads) := by
    rw [h.sections_eq, Image.markEncrypted, imageSections, List.map_map]
    rfl
  have hmem : s ∈ d.sections.filter fun s => s.size ≠ 0 :=
    List.mem_filter.2 ⟨hs, decide_eq_true hsize⟩
  rw [Image.section?, hsections, List.find?_map]
  exact congrArg _ (hd.find?_eq (List.filter_subset_self _) hmem)

/-- The bytes of a section that is not marked are those at its place in the file, as far as the file
reaches. -/
private theorem sectionData_of_filled (hd : d.Framed) (h : image.Displays d bytes)
    (hs : s ∈ d.sections) (hfilled : s.isZeroFill = false)
    (hmark : (d.markedSection image.loads s).encrypted = false) (hsize : s.size ≤ Image.maxBuffer) :
    image.sectionData (d.markedSection image.loads s) =
      .returned ((bytes.drop (s.slot * slotSize)).take s.size.toNat,
        if bytes.length - s.slot * slotSize < s.size.toNat then
          some (.truncated (s.slot * slotSize : Nat) s.size.toNat bytes.length)
        else none) := by
  have hzero : (d.markedSection image.loads s).isZeroFill = false :=
    (hd.isZeroFill_imageSection hs).trans hfilled
  have hheld : ¬ Image.maxBuffer < (d.markedSection image.loads s).size := UInt64.not_lt.2 hsize
  have hsame : (d.markedSection image.loads s).size = s.size := rfl
  have hoffset : (d.markedSection image.loads s).offset.toNat = s.slot * slotSize :=
    hd.offset_imageSection hs hfilled
  -- the draft gives the section the offset of its slot, so what is read is that slot of the file
  rw [Image.sectionData, hmark, if_neg Bool.false_ne_true, if_neg hheld, hzero]
  dsimp only
  rw [if_neg Bool.false_ne_true, hoffset, hsame, h.contents_eq, h.size_eq, Image.bytesAt_toArray,
    List.length_take, List.length_drop]
  simp only [min_lt_iff, Nat.lt_irrefl, false_or]

/-- The bytes of a section that is not marked are those that were added to it, or zeros. -/
theorem sectionData_markedSection (hd : d.Fitting) (h : image.Displays d bytes)
    (hencode : d.encode = .ok bytes) (hs : s ∈ d.sections)
    (hmark : (d.markedSection image.loads s).encrypted = false) (hsize : s.size ≤ Image.maxBuffer) :
    image.sectionData (d.markedSection image.loads s) = .returned
      (if s.isZeroFill then List.replicate s.size.toNat 0 else s.contents, none) := by
  cases hfilled : s.isZeroFill with
  | true =>
    have hzero : (d.markedSection image.loads s).isZeroFill = true :=
      (hd.isZeroFill_imageSection hs).trans hfilled
    have hheld : ¬ Image.maxBuffer < (d.markedSection image.loads s).size := UInt64.not_lt.2 hsize
    rw [Image.sectionData, hmark, if_neg Bool.false_ne_true, if_neg hheld, hzero]
    rfl
  | false =>
    have hlength := hd.toNat_size hs hfilled
    have hread := hd.take_drop_file hencode hs hfilled (Nat.zero_add s.contents.length).le
    rw [List.drop_zero, List.take_length, Nat.add_zero] at hread
    have hinside : ¬ bytes.length - s.slot * slotSize < s.size.toNat := by
      have hslot := hd.slot_le_of_filled hs hfilled
      have hfits := hd.length_le s hs hfilled
      rw [length_of_encode hencode, hlength, storedSlots]
      rw [slotSize] at hfits ⊢
      omega
    rw [sectionData_of_filled hd.toFramed h hs hfilled hmark hsize, if_neg hinside, hlength, hread]
    rfl

/-- Whatever a draft was made of, its sections are read back from the file, as long as none of them
was padded beyond its slot. Every section that is not empty is found by its names, with its address
and its size. It is marked as encrypted if it has bytes in the file and an encryption command with a
system was added for it; if it is not marked and not too large to be held, its bytes are those that
were added to it, or zeros. The file does not depend on the order in which the sections are written.
The sizes must be no wider than addresses, and further load commands must be ones that are kept as
they were written, or identifiers. -/
theorem sections_read_back (hreached : d.Reached)
    (hslots : ∀ s ∈ d.sections, s.isZeroFill = false → s.contents.length ≤ slotSize)
    (hsizes : d.is64 = false → ∀ s ∈ d.sections, s.size.toNat < 2 ^ 32)
    (hloads : ∀ raw ∈ d.loads, Load.IsPlain d.order raw) (hencode : d.encode = .ok bytes) :
    (∀ sections, sections.Perm d.sections → d.encodeIn sections = .ok bytes) ∧
    ∃ image, Image.ofSlice bytes.toArray (some bytes.length) {} = .ok image ∧
      ∀ s ∈ d.sections, s.size ≠ 0 →
        ∃ found, image.section? s.segment s.name = some found ∧
          found.addr = d.addressOf s ∧ found.size = s.size ∧
          (found.encrypted = true ↔ s.isZeroFill = false ∧ ∃ e ∈ d.encryptions,
            e.segment = s.segment ∧ e.sectionName = s.name ∧ e.system ≠ 0) ∧
          (found.encrypted = false → s.size ≤ Image.maxBuffer →
            image.sectionData found = .returned
              (if s.isZeroFill then List.replicate s.size.toNat 0 else s.contents, none)) := by
  have hd : d.Fitting := ⟨⟨hreached.framed, hsizes⟩, hslots⟩
  refine ⟨fun sections hperm => (hd.encodeIn_perm hperm).trans hencode, ?_⟩
  obtain ⟨image, hopen, hdisplays⟩ := hd.exists_displays hloads hencode
  refine ⟨image, hopen, fun s hs hsize => ⟨d.markedSection image.loads s, ?_, rfl, rfl, ?_, ?_⟩⟩
  · exact section?_eq_markedSection hd.toFramed hdisplays hs hsize
  · exact encrypted_markedSection_iff hd hdisplays hs hsize
  · exact sectionData_markedSection hd hdisplays hencode hs

open Drafting in
/-- A text, three bytes of data that are padded to eight, a section without bytes in the file, an
encryption command and an identifier. -/
private def smallSteps : Drafting Unit := do
  let _ ← cstring "Greeter"
  let _ ← append "__DATA" "__objc_data" [1, 2, 3]
  align "__DATA" "__objc_data" 8
  zeroFill 0x20
  encrypt "__TEXT" "__cstring" 1
  addUuid (List.replicate 16 7)

/-- A new draft with the other byte order. -/
private def bigDraft : Draft := { new 0x0100000C 0 with order := .big }

/-- The draft that the steps lead to. -/
private def smallDraft : Draft :=
  match smallSteps bigDraft with
  | .ok (_, d) => d
  | .error _ => bigDraft

private theorem smallSteps_eq : smallSteps bigDraft = .ok ((), smallDraft) := rfl

/-- The small draft is made by steps from a new one. -/
private theorem reached_smallDraft : smallDraft.Reached := by
  have hsteps : Drafting.Stepwise smallSteps := by
    refine (Drafting.Stepwise.cstring _).bind fun _ => ?_
    refine (Drafting.Stepwise.append _ _ _).bind fun _ => ?_
    refine (Drafting.Stepwise.align _ _ _).bind fun _ => ?_
    refine (Drafting.Stepwise.of_step .zeroFill).bind fun _ => ?_
    exact (Drafting.Stepwise.of_step .encrypt).bind fun _ => .of_step .addUuid
  exact hsteps.reached ⟨_, _, .single (.order _ .big)⟩ smallSteps_eq

/-- The small draft is written and read back, the encrypted text and the section without bytes among
its sections. -/
theorem sections_read_back_smallDraft :
    ∃ bytes, (smallDraft.Reached ∧
      (∀ s ∈ smallDraft.sections, s.isZeroFill = false → s.contents.length ≤ slotSize) ∧
      (smallDraft.is64 = false → ∀ s ∈ smallDraft.sections, s.size.toNat < 2 ^ 32) ∧
      (∀ raw ∈ smallDraft.loads, Load.IsPlain smallDraft.order raw) ∧
      smallDraft.encode = .ok bytes) ∧
    (∀ sections, sections.Perm smallDraft.sections → smallDraft.encodeIn sections = .ok bytes) ∧
    ∃ image, Image.ofSlice bytes.toArray (some bytes.length) {} = .ok image ∧
      ∀ s ∈ smallDraft.sections, s.size ≠ 0 →
        ∃ found, image.section? s.segment s.name = some found ∧
          found.addr = smallDraft.addressOf s ∧ found.size = s.size ∧
          (found.encrypted = true ↔ s.isZeroFill = false ∧ ∃ e ∈ smallDraft.encryptions,
            e.segment = s.segment ∧ e.sectionName = s.name ∧ e.system ≠ 0) ∧
          (found.encrypted = false → s.size ≤ Image.maxBuffer →
            image.sectionData found = .returned
              (if s.isZeroFill then List.replicate s.size.toNat 0 else s.contents, none)) := by
  have hslots : ∀ s ∈ smallDraft.sections, s.isZeroFill = false →
      s.contents.length ≤ slotSize := by
    decide +kernel
  have hsizes : smallDraft.is64 = false → ∀ s ∈ smallDraft.sections, s.size.toNat < 2 ^ 32 := by
    decide +kernel
  have hloads : ∀ raw ∈ smallDraft.loads, Load.IsPlain smallDraft.order raw := by
    have hall : ∀ raw ∈ smallDraft.loads, (8 ≤ raw.length ∧
        (ByteOrder.big.word32 (raw.drop 4)).toNat = raw.length) ∧
        ByteOrder.big.word32 raw = CommandCode.uuid ∧ 24 ≤ raw.length := by
      decide +kernel
    intro raw hraw
    obtain ⟨⟨hlength, hsize⟩, huuid⟩ := hall raw hraw
    exact ⟨⟨hlength, hsize⟩, .inr huuid⟩
  -- only the size of the head is evaluated: the file itself is never built
  obtain ⟨commands, hcommands, hhead⟩ : ∃ commands, smallDraft.commands = .ok commands ∧
      (smallDraft.head commands).length ≤ slotSize := by
    have hroom : (smallDraft.commands.toOption.map fun commands =>
        decide ((smallDraft.head commands).length ≤ slotSize)) = some true := by
      decide +kernel
    obtain ⟨commands, hcommands, hhead⟩ := Option.map_eq_some_iff.1 hroom
    exact ⟨commands, Except.toOption_eq_some_iff.1 hcommands, of_decide_eq_true hhead⟩
  obtain ⟨bytes, hencode⟩ := exists_encode hcommands hhead
  exact ⟨bytes, ⟨reached_smallDraft, hslots, hsizes, hloads, hencode⟩,
    sections_read_back reached_smallDraft hslots hsizes hloads hencode⟩

/-! ## Padding beyond a slot -/

/-- Without encryption commands no section is marked. -/
private theorem encrypted_markedSection_of_nil (h : image.Displays d bytes)
    (hencryptions : d.encryptions = []) (s : DraftSection) :
    (d.markedSection image.loads s).encrypted = false := by
  have hranges : Image.encryptionRanges image.loads = [] := by
    refine List.eq_nil_iff_forall_not_mem.2 fun r hr => ?_
    obtain ⟨⟨e, he, -⟩, -⟩ := (mem_encryptionRanges_iff h).1 hr
    simp [hencryptions] at he
  rw [markedSection, hranges, List.any_nil, Bool.and_false]

/-- A section that ends behind the end of the file is cut off. -/
theorem sectionData_markedSection_of_lt (hd : d.Framed) (h : image.Displays d bytes)
    (hencode : d.encode = .ok bytes) (hs : s ∈ d.sections) (hfilled : s.isZeroFill = false)
    (hmark : (d.markedSection image.loads s).encrypted = false) (hsize : s.size ≤ Image.maxBuffer)
    (hbehind : storedSlots * slotSize < s.slot * slotSize + s.size.toNat) :
    ∃ read, image.sectionData (d.markedSection image.loads s) = .returned (read, some
      (.truncated (s.slot * slotSize : Nat) s.size.toNat (storedSlots * slotSize : Nat))) := by
  have hcut : bytes.length - s.slot * slotSize < s.size.toNat := by
    have hslot := hd.slot_le_of_filled hs hfilled
    rw [storedSlots, slotSize] at hbehind
    rw [length_of_encode hencode, storedSlots, slotSize]
    omega
  rw [sectionData_of_filled hd h hs hfilled hmark hsize, if_pos hcut, length_of_encode hencode]
  exact ⟨_, rfl⟩

open Drafting in
/-- One byte of data that is padded to the size of two slots. -/
def paddedSteps : Drafting Unit := do
  let _ ← append "__DATA" "__objc_data" [1]
  align "__DATA" "__objc_data" 0x2000

/-- The section of the data, which is longer than its slot. -/
private def paddedData : DraftSection where
  segment := "__DATA"
  name := "__objc_data"
  slot := 10
  contents := [1] ++ List.replicate 8191 0

/-- The draft that padding leads to. -/
private def paddedDraft : Draft :=
  { new 0x0100000C 0 with
    sections := (new 0x0100000C 0).sections.map fun s => if s.slot = 10 then paddedData else s }

private theorem paddedSteps_eq : paddedSteps (new 0x0100000C 0) = .ok ((), paddedDraft) := rfl

/-- A section may be padded to the size of two slots, which nothing refuses. If it is in the last
slot with bytes in the file, only half of its bytes are read back. -/
theorem sections_not_read_back :
    ∃ d bytes image s found read, d.Reached ∧ paddedSteps (new 0x0100000C 0) = .ok ((), d) ∧
      d.encryptions = [] ∧ d.loads = [] ∧ d.encode = .ok bytes ∧
      Image.ofSlice bytes.toArray (some bytes.length) {} = .ok image ∧
      s ∈ d.sections ∧ s.isZeroFill = false ∧ s.contents = [1] ++ List.replicate 8191 0 ∧
      image.section? s.segment s.name = some found ∧ found.encrypted = false ∧
      image.sectionData found = .returned (read, some (.truncated 0xA000 0x2000 0xB000)) := by
  have hsteps : Drafting.Stepwise paddedSteps :=
    (Drafting.Stepwise.append _ _ _).bind fun _ => .align _ _ _
  have hreached : paddedDraft.Reached := hsteps.reached (reached_new _ _) paddedSteps_eq
  have hwide : paddedDraft.is64 = true := by decide
  have hd : paddedDraft.Stated :=
    ⟨hreached.framed, fun hnarrow => absurd (hwide.symm.trans hnarrow) (by decide)⟩
  have hs : paddedData ∈ paddedDraft.sections :=
    List.mem_map.2 ⟨(new 0x0100000C 0).sections[9], List.getElem_mem _, rfl⟩
  have hsize : paddedData.size = 0x2000 := by
    have hlength : paddedData.contents.length = 0x2000 := by
      rw [paddedData, List.length_append, List.length_replicate, List.length_singleton]
    rw [DraftSection.size, if_pos (by rfl), hlength]
    rfl
  -- the file ends with the slot, while the section goes on: its last page is never written
  obtain ⟨bytes, hencode⟩ := hd.exists_encode rfl rfl
  obtain ⟨image, hopen, hdisplays⟩ := hd.exists_displays (List.forall_mem_nil _) hencode
  have hmark := encrypted_markedSection_of_nil hdisplays rfl paddedData
  obtain ⟨read, hdata⟩ := sectionData_markedSection_of_lt hd.toFramed hdisplays hencode hs rfl
    hmark (by rw [hsize]; decide) (by rw [hsize]; decide)
  rw [hsize] at hdata
  refine ⟨paddedDraft, bytes, image, paddedData, _, read, hreached, paddedSteps_eq, rfl, rfl,
    hencode, hopen, hs, rfl, rfl, ?_, hmark, hdata⟩
  exact section?_eq_markedSection hd.toFramed hdisplays hs (by rw [hsize]; decide)

end Draft

end ObjcLens
