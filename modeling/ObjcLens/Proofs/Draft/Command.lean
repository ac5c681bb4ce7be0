import Mathlib
import ObjcLens.Draft.Encode
import ObjcLens.Image.Basic
import ObjcLens.Proofs.Image.Written

/-!
# Load commands are read back

The load commands of a draft are segment commands, encryption commands and further ones. A segment
command is parsed to a segment that lists the sections of the draft as they were written, with their
names, addresses, sizes and flags; an encryption command tells the range of its section; further
commands that are plain tell neither.

## Main results

* `sectionOfRecord_sectionRecord`: the record of a section is read back.
* `parse_segmentCommand`: a segment command is parsed, and its sections are read back.
* `isRead_segmentCommand`, `isRead_encryptionCommand`, `IsPlain.isRead`: how each command is read.
* `parseAll_flatten`: commands one behind the other are parsed one by one.
-/

namespace ObjcLens

namespace Draft

/-- The field of a name has 16 bytes, however long the name is. -/
@[simp]
theorem length_nameField (name : Text) : (nameField name).length = 16 := by
  simp [nameField]

@[simp]
theorem length_words (d : Draft) (values : List UInt32) :
    (d.words values).length = 4 * values.length := by
  induction values with
  | nil => rfl
  | cons v rest ih =>
    rw [words, List.flatMap_cons, List.length_append, ByteOrder.bytes32, ByteOrder.length_bytes]
    rw [words] at ih
    rw [ih, List.length_cons]
    omega

@[simp]
theorem length_pointers (d : Draft) (values : List UInt64) :
    (d.pointers values).length = d.pointerSize * values.length := by
  induction values with
  | nil => rfl
  | cons v rest ih =>
    rw [pointers, List.flatMap_cons, List.length_append]
    rw [pointers] at ih
    rw [ih, List.length_cons, pointerSize]
    split <;> simp <;> omega

/-- A name that fits its field is read back. -/
theorem untilZero_nameField {name : Text} (hlength : name.length ≤ 16) (hzero : 0 ∉ name) :
    untilZero (nameField name) = name := by
  have htake : nameField name = name ++ List.replicate (16 - name.length) 0 := by
    rw [nameField, List.take_append, List.take_of_length_le hlength, List.take_replicate]
    congr 2
    omega
  rw [htake, untilZero_append hzero]
  cases 16 - name.length <;> simp [untilZero, List.replicate_succ]

/-- The section of an image that a section of a draft becomes. -/
def imageSection (d : Draft) (s : DraftSection) : Section where
  name := s.name
  segment := s.segment
  addr := d.addressOf s
  size := s.size
  offset := if s.isZeroFill then 0 else s.offset.toUInt32
  align := 3
  relocOffset := 0
  relocCount := 0
  flags := s.flags
  reserved := (0, 0, 0)

/-- The names of a section fit their fields, and the numbers of a section fit an address. -/
structure Encodable (d : Draft) (s : DraftSection) : Prop where
  name_le : s.name.length ≤ 16
  name_ne : 0 ∉ s.name
  segment_le : s.segment.length ≤ 16
  segment_ne : 0 ∉ s.segment
  addr_lt : d.is64 = false → (d.addressOf s).toNat < 2 ^ 32
  size_lt : d.is64 = false → s.size.toNat < 2 ^ 32

/-- A number that fits is kept by the narrow form. -/
private theorem toUInt64_toUInt32 {n : UInt64} (h : n.toNat < 2 ^ 32) :
    n.toUInt32.toUInt64 = n := by
  apply UInt64.toNat_inj.1
  rw [UInt32.toNat_toUInt64, UInt64.toNat_toUInt32, Nat.mod_eq_of_lt h]

/-- The record of a section is read back. -/
theorem sectionOfRecord_sectionRecord {d : Draft} {s : DraftSection} (h : d.Encodable s) :
    Load.sectionOfRecord d.order d.is64 (d.sectionRecord s) = d.imageSection s := by
  have hname := untilZero_nameField h.name_le h.name_ne
  have hsegment := untilZero_nameField h.segment_le h.segment_ne
  cases hwide : d.is64 with
  | true =>
    simp [Load.sectionOfRecord, sectionRecord, imageSection, wide, pointers, words, hwide, hname,
      hsegment, List.drop_append, List.drop_eq_nil_of_le]
  | false =>
    simp [Load.sectionOfRecord, sectionRecord, imageSection, wide, pointers, words, hwide, hname,
      hsegment, List.drop_append, List.drop_eq_nil_of_le,
      toUInt64_toUInt32 (h.addr_lt hwide), toUInt64_toUInt32 (h.size_lt hwide)]

/-- The size of the record of a section depends on the width of addresses only. -/
@[simp]
theorem length_sectionRecord (d : Draft) (s : DraftSection) :
    (d.sectionRecord s).length = if d.is64 then 80 else 68 := by
  cases hwide : d.is64 <;> simp [sectionRecord, wide, pointerSize, hwide]

/-- Section records one behind the other are read back. -/
theorem readSections_flatMap {d : Draft} {sections : List DraftSection}
    (h : ∀ s ∈ sections, d.Encodable s) (place : Int) (before : Text) :
    Load.readSections d.order d.is64 place (before ++ sections.flatMap d.sectionRecord)
      sections.length before.length = .ok (sections.map d.imageSection) := by
  induction sections generalizing before with
  | nil => rfl
  | cons s rest ih =>
    rw [List.forall_mem_cons] at h
    have hlength := d.length_sectionRecord s
    -- the record of the first section is what stands at the place that is reached
    have hrecord : ((before ++ (s :: rest).flatMap d.sectionRecord).drop before.length).take
        (if d.is64 then 80 else 68) = d.sectionRecord s := by
      rw [List.drop_left, List.flatMap_cons, List.take_left' hlength]
    have hrest := ih h.2 (before ++ d.sectionRecord s)
    rw [List.append_assoc, List.length_append, hlength] at hrest
    simp only [Load.readSections, Load.recordAt, Load.record, List.length_cons]
    rw [hrecord, if_pos hlength]
    change (do
      let others ← Load.readSections d.order d.is64 place _ _ _
      pure (_ :: others)) = _
    rw [List.flatMap_cons, hrest]
    change Except.ok (_ :: _) = _
    rw [sectionOfRecord_sectionRecord h.1, List.map_cons]

/-- The first part of a segment command, in front of the section records. -/
private def segmentHead (d : Draft) (name : Text) (addr size offset fileSize : UInt64)
    (protection : UInt32) (count : Nat) : Text :=
  d.words [if d.is64 then CommandCode.segment64 else CommandCode.segment,
      (if d.is64 then 72 + 80 * count else 56 + 68 * count).toUInt32] ++ nameField name ++
    [addr, size, offset, fileSize].flatMap d.wide ++
    d.words [protection, protection, count.toUInt32, 0]

/-- The size of the head of a segment command depends on the width of addresses only. -/
private theorem length_segmentHead (d : Draft) (name : Text) (addr size offset fileSize : UInt64)
    (protection : UInt32) (count : Nat) :
    (segmentHead d name addr size offset fileSize protection count).length =
      if d.is64 then 72 else 56 := by
  cases hwide : d.is64 <;> simp [segmentHead, wide, pointerSize, hwide]

/-- A segment command is parsed, and its sections are read back. -/
theorem parse_segmentCommand {d : Draft} {name : Text} {addr size offset fileSize : UInt64}
    {protection : UInt32} {sections : List DraftSection} (h : ∀ s ∈ sections, d.Encodable s)
    (hcount : sections.length < 2 ^ 32) (first : Nat) (place : Int) :
    let raw := d.segmentCommand name addr size offset fileSize protection sections
    let code := if d.is64 then CommandCode.segment64 else CommandCode.segment
    ∃ segment, Load.parse d.order first place code raw =
      .ok (⟨code, raw, .segment segment⟩, sections.map d.imageSection) := by
  have hlength := length_segmentHead d name addr size offset fileSize protection sections.length
  have hsections := readSections_flatMap h place
    (segmentHead d name addr size offset fileSize protection sections.length)
  rw [hlength] at hsections
  have hword : d.order.word32
      ((segmentHead d name addr size offset fileSize protection sections.length).drop
        (if d.is64 then 64 else 48)) = sections.length.toUInt32 := by
    cases hwide : d.is64 <;>
      simp [segmentHead, words, wide, pointers, hwide, List.drop_append, List.drop_eq_nil_of_le]
  have hraw : d.segmentCommand name addr size offset fileSize protection sections =
      segmentHead d name addr size offset fileSize protection sections.length ++
        sections.flatMap d.sectionRecord := by
    rw [segmentCommand, segmentHead]
  have hrecord (what : Text) : Load.recordAt place what
      (d.segmentCommand name addr size offset fileSize protection sections) 0
        (if d.is64 then 72 else 56) =
      .ok (segmentHead d name addr size offset fileSize protection sections.length) := by
    rw [Load.recordAt, Load.record, hraw, List.drop_zero, List.take_left' hlength, if_pos hlength]
    rfl
  have hcount' : sections.length.toUInt32.toNat = sections.length :=
    UInt32.toNat_ofNat_of_lt' hcount
  rw [← hraw] at hsections
  generalize segmentHead d name addr size offset fileSize protection sections.length = head at *
  generalize d.segmentCommand name addr size offset fileSize protection sections = raw at *
  cases hwide : d.is64 with
  | true =>
    simp only [hwide, if_true] at hword hrecord hsections ⊢
    rw [Load.parse, if_pos (by decide)]
    simp only [decide_true, Load.parseSegment, if_true, hrecord, hword, hcount', hsections, bind,
      Except.bind, pure, Except.pure]
    exact ⟨_, rfl⟩
  | false =>
    have hcode : (CommandCode.segment = CommandCode.segment64) = False := by decide
    simp only [hwide, Bool.false_eq_true, if_false] at hword hrecord hsections ⊢
    rw [Load.parse, if_pos (by decide)]
    simp only [hcode, decide_false, Load.parseSegment, Bool.false_eq_true, if_false, hrecord,
      hword, hcount', hsections, bind, Except.bind, pure, Except.pure]
    exact ⟨_, rfl⟩

/-- A segment command is its head with a record for each section. -/
@[simp]
theorem length_segmentCommand (d : Draft) (name : Text) (addr size offset fileSize : UInt64)
    (protection : UInt32) (sections : List DraftSection) :
    (d.segmentCommand name addr size offset fileSize protection sections).length =
      if d.is64 then 72 + 80 * sections.length else 56 + 68 * sections.length := by
  have hhead := length_segmentHead d name addr size offset fileSize protection sections.length
  have hrecords : (sections.flatMap d.sectionRecord).length =
      (if d.is64 then 80 else 68) * sections.length := by
    rw [List.length_flatMap, List.map_congr_left fun s _ => d.length_sectionRecord s]
    simp [Nat.mul_comm]
  change (segmentHead d name addr size offset fileSize protection sections.length ++
    sections.flatMap d.sectionRecord).length = _
  rw [List.length_append, hhead, hrecords]
  split <;> rfl

end Draft

/-- What is known of a command that is read: the sections that it lists and a property of its
body. -/
abbrev LoadReading := List Section × (LoadBody → Prop)

/-- A command that is read in a certain way, wherever it stands. -/
structure Load.IsRead (order : ByteOrder) (raw : Text) (reading : LoadReading) : Prop where
  framed : Load.IsFramed order raw
  parse_eq : ∀ first place, ∃ body, reading.2 body ∧
    Load.parse order first place (order.word32 raw) raw =
      .ok (⟨order.word32 raw, raw, body⟩, reading.1)

/-- Commands one behind the other are found one by one. -/
private theorem scans_flatten_reads {order : ByteOrder} {raws : List Text}
    {readings : List LoadReading} (h : List.Forall₂ (Load.IsRead order) raws readings)
    (first : Nat) (place : Int) :
    ∃ loads, Load.Scans order first place raws.flatten loads (readings.map (·.1)).flatten ∧
      List.Forall₂ (fun load reading => reading.2 load.body) loads readings := by
  induction h generalizing first place with
  | nil => exact ⟨[], .done _ _ _, .nil⟩
  | @cons raw reading raws readings hraw _ ih =>
    obtain ⟨body, hbody, hparse⟩ := hraw.parse_eq first place
    obtain ⟨loads, hscans, hloads⟩ := ih (first + reading.1.length) (place + raw.length)
    exact ⟨_, .command hraw.framed hparse hscans, .cons hbody hloads⟩

/-- Commands one behind the other are parsed one by one. -/
theorem Load.parseAll_flatten {order : ByteOrder} {raws : List Text}
    {readings : List LoadReading} (h : List.Forall₂ (Load.IsRead order) raws readings)
    (first : Nat) (place : Int) :
    ∃ loads, Load.parseAll order raws.length first place raws.flatten =
        .ok (loads, (readings.map (·.1)).flatten) ∧
      List.Forall₂ (fun load reading => reading.2 load.body) loads readings := by
  obtain ⟨loads, hscans, hloads⟩ := scans_flatten_reads h first place
  have hlength : loads.length = raws.length := hloads.length_eq.trans h.length_eq.symm
  exact ⟨loads, parseAll_eq_ok_iff.2 ⟨hscans, hlength⟩, hloads⟩

namespace Load

variable {order : ByteOrder} {raw : Text}

/-- A record at the start of a command is read if it is there. -/
private theorem recordAt_zero {size : Nat} (h : size ≤ raw.length) (place : Int) (what : Text) :
    recordAt place what raw 0 size = .ok (raw.take size) := by
  rw [recordAt, record, List.drop_zero, if_pos (List.length_take_of_le h)]
  rfl

/-- A command that is kept as it was written, or that has an identifier of sixteen bytes. -/
def IsPlain (order : ByteOrder) (raw : Text) : Prop :=
  IsFramed order raw ∧ (order.word32 raw ∉ CommandCode.interpreted ∨
    order.word32 raw = CommandCode.uuid ∧ 24 ≤ raw.length)

/-- A plain command lists no sections and tells of no encryption. -/
theorem IsPlain.isRead (h : IsPlain order raw) :
    IsRead order raw ([], fun body => ∀ range, body ≠ .encryption range) := by
  obtain ⟨hframed, hother | ⟨huuid, hlength⟩⟩ := h
  · exact ⟨hframed, fun first place => ⟨.other, nofun, parse_of_notMem hother⟩⟩
  · have hcode : ¬ (CommandCode.uuid = CommandCode.segment ||
        CommandCode.uuid = CommandCode.segment64) := by decide
    refine ⟨hframed, fun first place => ⟨.uuid ((raw.take 24).drop 8), nofun, ?_⟩⟩
    rw [huuid, parse, if_neg hcode, parseBody, if_pos rfl]
    simp only [recordAt_zero hlength]
    rfl

/-- A command with one of the two codes of encryption tells a range. -/
theorem parse_encryption (h : order.word32 raw = CommandCode.encryptionInfo ∧ 20 ≤ raw.length ∨
      order.word32 raw = CommandCode.encryptionInfo64 ∧ 24 ≤ raw.length)
    (first : Nat) (place : Int) :
    parse order first place (order.word32 raw) raw =
      .ok (⟨order.word32 raw, raw, .encryption ⟨order.word32 (raw.drop 8),
        order.word32 (raw.drop 12), order.word32 (raw.drop 16)⟩⟩, []) := by
  -- the two commands have the same three words and differ in their length
  rcases h with ⟨hcode, hlength⟩ | ⟨hcode, hlength⟩
  · rw [hcode, parse, if_neg (by decide), parseBody, if_neg (by decide), if_pos rfl]
    simp only [recordAt_zero hlength]
    rfl
  · rw [hcode, parse, if_neg (by decide), parseBody, if_neg (by decide), if_neg (by decide),
      if_pos rfl]
    simp only [recordAt_zero hlength]
    rfl

end Load

namespace Draft

/-- The segment commands of a draft list its sections. -/
theorem isRead_segmentCommand {d : Draft} {name : Text}
    {addr size offset fileSize : UInt64} {protection : UInt32} {sections : List DraftSection}
    (h : ∀ s ∈ sections, d.Encodable s) (hcount : sections.length ≤ 11) :
    Load.IsRead d.order
      (d.segmentCommand name addr size offset fileSize protection sections)
      (sections.map d.imageSection, fun body => ∃ segment, body = .segment segment) := by
  have hlength := d.length_segmentCommand name addr size offset fileSize protection sections
  have hcode : d.order.word32
      (d.segmentCommand name addr size offset fileSize protection sections) =
      if d.is64 then CommandCode.segment64 else CommandCode.segment := by
    simp [segmentCommand, words]
  refine ⟨⟨?_, ?_⟩, fun first place => ?_⟩
  · rw [hlength]
    split <;> omega
  · have hstated : (d.segmentCommand name addr size offset fileSize protection sections).drop 4 =
        d.order.bytes32 (if d.is64 then 72 + 80 * sections.length
          else 56 + 68 * sections.length).toUInt32 ++
        (d.segmentCommand name addr size offset fileSize protection sections).drop 8 := by
      simp [segmentCommand, words, List.drop_append, List.drop_eq_nil_of_le]
    rw [hstated, ByteOrder.word32_bytes32, hlength]
    refine UInt32.toNat_ofNat_of_lt' ?_
    rw [UInt32.size]
    split <;> omega
  · rw [hcode]
    obtain ⟨segment, hparse⟩ := parse_segmentCommand h (by omega) first place
    exact ⟨.segment segment, ⟨segment, rfl⟩, hparse⟩

/-- The range of the file that an encryption command for a section covers. -/
def encryptionRange (s : DraftSection) (system : UInt32) : EncryptionRange :=
  ⟨s.offset.toUInt32, s.size.toUInt32, system⟩

/-- An encryption command tells the range of its section. -/
theorem isRead_encryptionCommand {d : Draft} {e : DraftEncryption} {raw : Text}
    (h : d.encryptionCommand e = .ok raw) :
    Load.IsRead d.order raw ([], fun body => ∃ s, d.section? e.segment e.sectionName = some s ∧
      body = .encryption (encryptionRange s e.system)) := by
  rw [encryptionCommand] at h
  cases hs : d.section? e.segment e.sectionName with
  | none => simp [hs] at h
  | some s =>
    rw [hs] at h
    obtain rfl := Except.ok.inj h
    refine ⟨?_, fun first place => ⟨_, ⟨s, rfl, rfl⟩, ?_⟩⟩
    · cases hwide : d.is64 <;> exact ⟨by simp, by simp [words]⟩
    · rw [Load.parse_encryption]
      · cases hwide : d.is64 <;>
          simp [words, encryptionRange, List.drop_append, List.drop_eq_nil_of_le]
      · cases hwide : d.is64 <;> simp [words]

end Draft

end ObjcLens
