import ObjcLens.Proofs.Image.Open

/-!
# Bytes are only indexed where they are

Opening a slice cuts stretches out of its bytes, and reads words and texts in them. The offsets and
sizes of the stretches come from the slice itself. In `Checked` every stretch is compared with the
bytes that it is cut out of, and one that reaches beyond them ends the computation without a result
and without an error. It never ends in this way, so that it is the computation itself.

A record is read as a whole, which fails with an error if the command is too short for it. Its
fields are then cut out of the record, and names out of the command.

## Main results

* `Checked.parse_eq`, `Checked.parseAll_eq`: load commands are parsed within their bytes.
* `Checked.ofSlice_eq`: a slice is opened within its bytes.
-/

namespace ObjcLens.Image.Checked

/-- A computation that may fail with an error, or end without one at a stretch of bytes that is not
there. -/
abbrev Indexed := OptionT (Except Error)

/-- The bytes from one index up to another one. -/
def slice (bytes : Text) (start stop : Nat) : Indexed Text :=
  if start ≤ stop ∧ stop ≤ bytes.length then pure ((bytes.take stop).drop start) else failure

/-- The bytes up to the first zero byte, all of them if there is none. -/
def cstring (bytes : Text) : Indexed Text := slice bytes 0 (bytes.findIdx (· == 0))

section Parse

variable (order : ByteOrder)

/-- The 32-bit number at an index. -/
def word32 (bytes : Text) (offset : Nat) : Indexed UInt32 := do
  return order.word32 (← slice bytes offset (offset + 4))

/-- The 64-bit number at an index. -/
def word64 (bytes : Text) (offset : Nat) : Indexed UInt64 := do
  return order.word64 (← slice bytes offset (offset + 8))

def sectionOfRecord (is64 : Bool) (r : Text) : Indexed Section := do
  let number (wide narrow : Nat) : Indexed UInt64 :=
    if is64 then word64 order r wide else do return (← word32 order r narrow).toUInt64
  let tail := if is64 then 48 else 40
  return {
    name := ← cstring (← slice r 0 16)
    segment := ← cstring (← slice r 16 32)
    addr := ← number 32 32
    size := ← number 40 36
    offset := ← word32 order r tail
    align := ← word32 order r (tail + 4)
    relocOffset := ← word32 order r (tail + 8)
    relocCount := ← word32 order r (tail + 12)
    flags := ← word32 order r (tail + 16)
    reserved := (← word32 order r (tail + 20), ← word32 order r (tail + 24),
      ← if is64 then word32 order r (tail + 28) else pure 0) }

def readSections (is64 : Bool) (place : Int) (raw : Text) : Nat → Nat → Indexed (List Section)
  | 0, _ => pure []
  | count + 1, offset => do
    let size := if is64 then 80 else 68
    let what : Text := if is64 then "Section64" else "Section32"
    let r ← OptionT.lift (Load.recordAt place what raw offset size)
    let first ← sectionOfRecord order is64 r
    let rest ← readSections is64 place raw count (offset + size)
    return first :: rest

def parseSegment (is64 : Bool) (firstSection : Nat) (place : Int) (code : CommandCode)
    (raw : Text) : Indexed (Segment × List Section) := do
  let size := if is64 then 72 else 56
  let r ← OptionT.lift (Load.recordAt place code.name raw 0 size)
  let number (index : Nat) : Indexed UInt64 :=
    if is64 then word64 order r (24 + 8 * index)
    else do return (← word32 order r (24 + 4 * index)).toUInt64
  let tail := if is64 then 56 else 40
  let segment : Segment := {
    code
    length := ← word32 order r 4
    name := ← cstring (← slice r 8 24)
    addr := ← number 0
    memSize := ← number 1
    offset := ← number 2
    fileSize := ← number 3
    maxProt := ← word32 order r tail
    prot := ← word32 order r (tail + 4)
    sectionCount := ← word32 order r (tail + 8)
    flags := ← word32 order r (tail + 12)
    firstSection := firstSection.toUInt32 }
  let sections ← readSections order is64 place raw segment.sectionCount.toNat size
  return (segment, sections)

/-- The text in a command from an offset on, which the command states. -/
def nameIn (place : Int) (what : Text) (raw : Text) (start : UInt32) : Indexed Text := do
  if raw.length ≤ start.toNat then
    OptionT.lift (throw (.format place what (some (Text.dec start.toNat))))
  else cstring (← slice raw start.toNat raw.length)

def parseBody (place : Int) (code : CommandCode) (raw : Text) : Indexed LoadBody :=
  let recordOf (size : Nat) : Indexed Text :=
    OptionT.lift (Load.recordAt place code.name raw 0 size)
  if code = CommandCode.uuid then do
    return .uuid (← slice (← recordOf 24) 8 24)
  else if code = CommandCode.encryptionInfo then do
    let r ← recordOf 20
    return .encryption ⟨← word32 order r 8, ← word32 order r 12, ← word32 order r 16⟩
  else if code = CommandCode.encryptionInfo64 then do
    let r ← recordOf 24
    return .encryption ⟨← word32 order r 8, ← word32 order r 12, ← word32 order r 16⟩
  else if code = CommandCode.codeSignature then do
    let r ← recordOf 16
    return .codeSignature (← word32 order r 8) (← word32 order r 12)
  else if code = CommandCode.chainedFixups then do
    let r ← recordOf 16
    return .chainedFixups (← word32 order r 8) (← word32 order r 12)
  else if code = CommandCode.loadDylib || code = CommandCode.idDylib ||
      code = CommandCode.loadWeakDylib || code = CommandCode.reexportDylib then do
    let r ← recordOf 24
    let name ← nameIn place "invalid name in dynamic library command" raw (← word32 order r 8)
    return .dylib ⟨name, ← word32 order r 12, ← word32 order r 16, ← word32 order r 20⟩
  else if code = CommandCode.rpath then do
    let r ← recordOf 12
    return .rpath (← nameIn place "invalid path in rpath command" raw (← word32 order r 8))
  else if code = CommandCode.buildVersion then do
    let r ← recordOf 24
    return .buildVersion
      ⟨← word32 order r 8, ← word32 order r 12, ← word32 order r 16, ← word32 order r 20⟩
  else if code = CommandCode.sourceVersion then do
    return .sourceVersion (← word64 order (← recordOf 16) 8)
  else pure .other

def parse (firstSection : Nat) (place : Int) (code : CommandCode) (raw : Text) :
    Indexed (Load × List Section) :=
  if code = CommandCode.segment || code = CommandCode.segment64 then do
    let is64 := code = CommandCode.segment64
    let (segment, sections) ← parseSegment order is64 firstSection place code raw
    return (⟨code, raw, .segment segment⟩, sections)
  else do
    return (⟨code, raw, ← parseBody order place code raw⟩, [])

/-- The commands are cut off one after the other by the sizes that they state. -/
def parseAll : Nat → Nat → Int → Text → Indexed (List Load × List Section)
  | 0, _, _, _ => pure ([], [])
  | count + 1, firstSection, place, block => do
    if block.length < 8 then
      OptionT.lift (throw (.format place "command block too small" none))
    else
      let code ← word32 order block 0
      let size := (← word32 order block 4).toNat
      if size < 8 || block.length < size then
        OptionT.lift (throw (.format place "invalid command block size" none))
      else
        let raw ← slice block 0 size
        let rest ← slice block size block.length
        let (load, sections) ← parse order firstSection place code raw
        let (loads, others) ←
          parseAll count (firstSection + sections.length) (place + size) rest
        return (load :: loads, sections ++ others)

/-- The header is read from a buffer that is as long as the longest header, and filled with zeros
where the image has a shorter one. -/
def headerOfBytes (magic : Magic) (bytes : Text) : Indexed FileHeader := do
  let buffer := bytes ++ List.replicate (FileHeader.size64 - bytes.length) 0
  let word (index : Nat) : Indexed UInt32 := word32 order buffer (4 * index)
  return ⟨magic, ← word 1, ← word 2, ← word 3, ← word 4, ← word 5, ← word 6, ← word 7⟩

end Parse

def identify (bytes : Text) : Indexed (Option (ByteOrder × Magic)) := do
  if bytes.length < 4 then return none
  else
    let big ← word32 .big bytes 0
    let little ← word32 .little bytes 0
    if Magic.isImage big then return some (.big, big)
    else if Magic.isImage little then return some (.little, little)
    else return none

/-- The image that a slice holds, with all indices checked. -/
def ofSlice (source : Array UInt8) (told : Option Nat) (bounds : SliceBounds) :
    Indexed Image := do
  let size := Image.sliceSize bounds told
  let contents := source.extract 0 size
  match ← identify (Image.bytesAt contents 0 4) with
  | none => OptionT.lift (throw (.notMachO []))
  | some (order, magic) =>
    let bytes ← OptionT.lift (Image.readAll contents size 0 (Image.headerLength magic))
    let header ← headerOfBytes order magic bytes
    let block ← OptionT.lift
      (Image.readAll contents size (Image.headerLength magic) header.commandSize.toNat)
    let (loads, sections) ←
      parseAll order header.commandCount.toNat 0 (Image.headerLength magic) block
    return {
      header, order, loads, size, contents
      sections := Image.markEncrypted loads sections
      offset := bounds.offset }

/-! ## No index is outside

Each checked function is the unchecked one, lifted: the length of a record, or a comparison in front
of an index, says that the bytes are there. -/

section Lift

variable {α β : Type}

/-- A lifted step hands on what is known of its result. -/
theorem lift_bind_eq {x : Except Error α} {f : α → Indexed β} {g : α → Except Error β}
    (h : ∀ a, x = .ok a → f a = OptionT.lift (g a)) :
    (OptionT.lift x >>= f) = OptionT.lift (x >>= g) := by
  cases x with
  | error e => rfl
  | ok a => exact h a rfl

theorem lift_map (f : α → β) (x : Except Error α) :
    f <$> (OptionT.lift x : Indexed α) = OptionT.lift (f <$> x) := by
  cases x <;> rfl

theorem ite_eq_lift {c : Prop} [Decidable c] {x y : Indexed α} {x' y' : Except Error α}
    (hx : c → x = OptionT.lift x') (hy : ¬c → y = OptionT.lift y') :
    (if c then x else y) = OptionT.lift (if c then x' else y') := by
  split
  · exact hx ‹_›
  · exact hy ‹_›

end Lift

/-- A slice inside of the bytes needs no check. -/
theorem slice_eq {bytes : Text} {start stop : Nat} (h : start ≤ stop) (h' : stop ≤ bytes.length) :
    slice bytes start stop = pure ((bytes.take stop).drop start) := if_pos ⟨h, h'⟩

/-- A text ends inside of its bytes. -/
theorem cstring_eq (bytes : Text) : cstring bytes = pure (untilZero bytes) := by
  have hfirst : (fun b : UInt8 => !(b != 0)) = (· == 0) := by
    funext b
    rw [bne, Bool.not_not]
  rw [cstring, slice_eq (Nat.zero_le _) List.findIdx_le_length, List.drop_zero, untilZero,
    List.takeWhile_eq_take_findIdx_not, hfirst]

variable {order : ByteOrder} {place : Int} {code : CommandCode} {raw : Text}

/-- A word of 32 bits inside of the bytes needs no check. -/
theorem word32_eq {bytes : Text} {offset : Nat} (h : offset + 4 ≤ bytes.length) :
    word32 order bytes offset = pure (order.word32 (bytes.drop offset)) := by
  rw [word32, slice_eq (Nat.le_add_right _ _) h, pure_bind, ByteOrder.word32, ByteOrder.word32,
    List.drop_take, Nat.add_sub_cancel_left, List.take_take, min_self]

/-- A word of 64 bits inside of the bytes needs no check. -/
theorem word64_eq {bytes : Text} {offset : Nat} (h : offset + 8 ≤ bytes.length) :
    word64 order bytes offset = pure (order.word64 (bytes.drop offset)) := by
  rw [word64, slice_eq (Nat.le_add_right _ _) h, pure_bind, ByteOrder.word64, ByteOrder.word64,
    List.drop_take, Nat.add_sub_cancel_left, List.take_take, min_self]

/-- The fields of a section are in its record. -/
theorem sectionOfRecord_eq {is64 : Bool} {r : Text} (h : r.length = if is64 then 80 else 68) :
    sectionOfRecord order is64 r = pure (Load.sectionOfRecord order is64 r) := by
  cases is64 <;> simp only [Bool.false_eq_true, if_true, if_false] at h <;>
    simp (disch := omega) [sectionOfRecord, Load.sectionOfRecord, slice_eq, cstring_eq, word32_eq,
      word64_eq, List.drop_take]

/-- No section record is read out of range. -/
theorem readSections_eq (is64 : Bool) (count offset : Nat) :
    readSections order is64 place raw count offset =
      OptionT.lift (Load.readSections order is64 place raw count offset) := by
  induction count generalizing offset with
  | zero => rfl
  | succ count ih =>
    refine lift_bind_eq fun r hr => ?_
    obtain ⟨-, hlength⟩ := (Load.recordAt_endsIn _ _ _).ok hr
    rw [sectionOfRecord_eq hlength, pure_bind, ih]
    exact lift_bind_eq fun rest _ => rfl

/-- The fields of a segment are in the record at the start of its command. -/
theorem parseSegment_eq (is64 : Bool) (first : Nat) :
    parseSegment order is64 first place code raw =
      OptionT.lift (Load.parseSegment order is64 first place code raw) := by
  refine lift_bind_eq fun r hr => ?_
  obtain ⟨-, hlength⟩ := (Load.recordAt_endsIn _ _ _).ok hr
  -- the two layouts have different lengths, and their fields other offsets
  cases is64 <;> simp only [Bool.false_eq_true, if_true, if_false] at hlength <;>
    simp (disch := omega) [slice_eq, cstring_eq, word32_eq, word64_eq, List.drop_take,
      readSections_eq, lift_map]

/-- A step that reads the record at the start of a command finds the words of the command in it. -/
theorem recordOf_bind_eq (order : ByteOrder) {α : Type} {size : Nat} {f : Text → Indexed α}
    {g : Text → Except Error α} (h : ∀ r, r.length = size →
      (∀ offset, offset + 4 ≤ size →
        word32 order r offset = pure (order.word32 (raw.drop offset))) →
      (∀ offset, offset + 8 ≤ size →
        word64 order r offset = pure (order.word64 (raw.drop offset))) →
      f r = OptionT.lift (g r)) :
    (OptionT.lift (Load.recordAt place code.name raw 0 size) >>= f) =
      OptionT.lift (Load.recordAt place code.name raw 0 size >>= g) := by
  refine lift_bind_eq fun r hr => ?_
  obtain ⟨hr, hlength⟩ := (Load.recordAt_endsIn _ _ _).ok hr
  -- the record is the start of the command, so words inside it are those of the command
  rw [List.drop_zero] at hr
  refine h r hlength (fun offset hoffset => ?_) (fun offset hoffset => ?_)
  · rw [word32_eq (by omega), hr, List.drop_take, ByteOrder.word32, List.take_take,
      min_eq_left (by omega)]
    rfl
  · rw [word64_eq (by omega), hr, List.drop_take, ByteOrder.word64, List.take_take,
      min_eq_left (by omega)]
    rfl

/-- A name starts in front of the end of its command. -/
theorem nameIn_eq (what : Text) (start : UInt32) :
    nameIn place what raw start = OptionT.lift (
      if raw.length ≤ start.toNat then throw (.format place what (some (Text.dec start.toNat)))
      else pure (untilZero (raw.drop start.toNat))) := by
  refine ite_eq_lift (fun _ => rfl) fun hstart => ?_
  rw [slice_eq (not_le.1 hstart).le le_rfl, List.take_length, pure_bind, cstring_eq]
  rfl

/-- Each command is read from its record, and its name, if it has one, from its bytes. -/
theorem parseBody_eq :
    parseBody order place code raw = OptionT.lift (Load.parseBody order place code raw) := by
  unfold parseBody Load.parseBody
  dsimp only
  refine ite_eq_lift (fun _ => recordOf_bind_eq order fun r hlength _ _ => ?_) fun _ => ?_
  · rw [slice_eq (by decide) hlength.ge, ← hlength, List.take_length, pure_bind]
    rfl
  iterate 4
    refine ite_eq_lift (fun _ => recordOf_bind_eq order fun r _ hword _ => ?_) fun _ => ?_
    · simp [hword]
  -- a library and a directory have a name
  iterate 2
    refine ite_eq_lift (fun _ => recordOf_bind_eq order fun r _ hword _ => ?_) fun _ => ?_
    · simp only [hword, nameIn_eq, pure_bind, Nat.reduceAdd, Nat.reduceLeDiff]
      split <;> rfl
  iterate 2
    refine ite_eq_lift (fun _ => recordOf_bind_eq order fun r _ hword hwide => ?_) fun _ => ?_
    · simp [hword, hwide]
  rfl

/-- No load command is read out of range. -/
theorem parse_eq (first : Nat) :
    parse order first place code raw =
      OptionT.lift (Load.parse order first place code raw) := by
  refine ite_eq_lift (fun _ => ?_) fun _ => ?_
  · dsimp only
    rw [parseSegment_eq]
    exact lift_bind_eq fun _ _ => rfl
  · rw [parseBody_eq]
    exact lift_bind_eq fun _ _ => rfl

/-- The sizes that cut the commands off are compared with the bytes that are left. -/
theorem parseAll_eq (count first : Nat) (place : Int) (block : Text) :
    parseAll order count first place block =
      OptionT.lift (Load.parseAll order count first place block) := by
  induction count generalizing first place block with
  | zero => rfl
  | succ count ih =>
    refine ite_eq_lift (fun _ => rfl) fun hshort => ?_
    -- code and size are there, and once the size is compared, so are the command and what is left
    rw [word32_eq (by omega), word32_eq (by omega)]
    refine ite_eq_lift (fun _ => rfl) fun hbad => ?_
    simp only [Bool.or_eq_true, decide_eq_true_iff, not_or, not_lt] at hbad
    rw [slice_eq (Nat.zero_le _) hbad.2, slice_eq hbad.2 le_rfl, List.take_length, pure_bind,
      pure_bind, parse_eq]
    refine lift_bind_eq fun ⟨load, sections⟩ _ => ?_
    dsimp only
    rw [ih]
    exact lift_bind_eq fun _ _ => rfl

/-- The magic number is never read out of range. -/
theorem identify_eq (bytes : Text) : identify bytes = pure (Image.identify bytes) := by
  unfold identify Image.identify
  by_cases hshort : bytes.length < 4
  · rw [if_pos hshort, if_pos hshort]
  · rw [if_neg hshort, if_neg hshort, word32_eq (by omega), word32_eq (by omega)]
    simp only [pure_bind, List.drop_zero]
    split
    · rfl
    · split <;> rfl

/-- A header that is too short for the last word of the buffer has a zero there. -/
theorem headerOfBytes_eq {magic : Magic} {bytes : Text} (h : bytes.length = headerLength magic) :
    headerOfBytes order magic bytes = pure (Image.headerOfBytes order magic bytes) := by
  have hzero : order.word32 (List.replicate 4 0) = order.word32 [] := by cases order <;> rfl
  unfold headerOfBytes Image.headerOfBytes
  rw [headerLength] at h
  split at h <;> simp only [FileHeader.size64, FileHeader.size32] at h
  · -- the header fills the buffer
    simp (disch := simp [h]) [h, FileHeader.size64, word32_eq]
  · have hpad (offset : Nat) (hoffset : offset + 4 ≤ 28) :
        order.word32 ((bytes ++ List.replicate 4 0).drop offset) =
          order.word32 (bytes.drop offset) := Load.word32_drop_append (h ▸ hoffset) _
    have hlast : order.word32 ((bytes ++ List.replicate 4 0).drop 28) =
        order.word32 (bytes.drop 28) := by
      rw [List.drop_left' h, hzero, List.drop_eq_nil_of_le h.le]
    simp (disch := simp [h]) only [h, FileHeader.size64, word32_eq, hpad, hlast, pure_bind,
      Nat.reduceMul, Nat.reduceSub]

/-- No index is outside of the bytes: a slice is opened as it is without checks. -/
theorem ofSlice_eq (source : Array UInt8) (told : Option Nat) (bounds : SliceBounds) :
    ofSlice source told bounds = OptionT.lift (Image.ofSlice source told bounds) := by
  rw [ofSlice_eq_ofContents, ofSlice, identify_eq, pure_bind, ofContents]
  cases Image.identify (bytesAt (source.extract 0 (sliceSize bounds told)) 0 4) with
  | none => rfl
  | some found =>
    obtain ⟨order, magic⟩ := found
    refine lift_bind_eq fun bytes hbytes => ?_
    have hread : readAll _ _ (0 : Nat) _ = .ok bytes := hbytes
    rw [headerOfBytes_eq (readAll_eq_ok_iff.1 hread).2.2, pure_bind]
    refine lift_bind_eq fun block _ => ?_
    rw [parseAll_eq]
    exact lift_bind_eq fun _ _ => rfl

end ObjcLens.Image.Checked
