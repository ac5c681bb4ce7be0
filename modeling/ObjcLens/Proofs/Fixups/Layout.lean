import Mathlib
import ObjcLens.Proofs.Bytes
import ObjcLens.Proofs.Fixups.Word

/-!
# The fields of a word of a chain

The word of a pointer is divided into fields that lie one behind the other. Which fields there are,
and how wide they are, depends on the layout and on whether the pointer is bound and authenticated.
`PointerFormat.fields` lists them from the lowest bit up, the bits between them included, and
`BitSlot.place` gives each of them its place.

Decoding reads every field at its place: no bit is used for two values, and no bit that belongs to
a field is left out. So the values that a pointer reports, put back at their places, give the word
again, with zeros for the bits that are reserved.

## Main results

* `BitSlot.pairwise_apart_place`, `BitSlot.exists_covers_place_iff`: fields that lie one behind the
  other do not overlap and leave no gap.
* `BitSlot.testBit_assemble_of_fills`: what the values give that are put back at their places.
* `PointerWord.ofRaw_readsFields`: every layout reads the fields of its words.
* `decodePointer_spelledBy`: the fields of a decoded pointer give its word again.
-/

namespace ObjcLens

/-- What a field of a word of a chain tells. -/
inductive PointerField where
  /-- The place inside the image. -/
  | target
  /-- The index of the import. -/
  | ordinal
  /-- The number that is added to the addend of the import. -/
  | addend
  /-- The upper byte of the pointer. -/
  | high8
  /-- The diversity of an authenticated pointer. -/
  | diversity
  /-- The key of an authenticated pointer. -/
  | key
  /-- The distance to the next word. -/
  | next
  /-- One for a bound pointer. -/
  | isBind
  /-- One for an authenticated pointer. -/
  | isAuth
  /-- Nothing: the bits are reserved, or no decoded pointer reports them. -/
  | reserved
deriving DecidableEq, Repr

/-- A field at its place in a word. -/
structure BitSlot where
  /-- What the field tells. -/
  field : PointerField
  /-- The lowest bit. -/
  start : Nat
  /-- The number of bits. -/
  width : Nat
deriving DecidableEq, Repr

namespace BitSlot

/-- The bit belongs to the field. -/
def Covers (slot : BitSlot) (i : Nat) : Prop := slot.start ≤ i ∧ i < slot.start + slot.width

/-- No bit belongs to both fields. -/
def Apart (a b : BitSlot) : Prop := ∀ i, a.Covers i → ¬b.Covers i

/-- The number in the bits of the field. -/
def read (slot : BitSlot) (raw : UInt64) : Nat := raw.toNat / 2 ^ slot.start % 2 ^ slot.width

/-- The word with a number in the bits of the field, a negative one as its two's complement. -/
def put (slot : BitSlot) (value : Int) : Nat := (value % 2 ^ slot.width).toNat <<< slot.start

/-- Fields with their widths, one behind the other from a bit on. -/
def place (start : Nat) : List (PointerField × Nat) → List BitSlot
  | [] => []
  | (field, width) :: rest => ⟨field, start, width⟩ :: place (start + width) rest

/-- The word that has the values in their fields, and zeros where no value is reported. -/
def assemble (value : PointerField → Int) : List BitSlot → Nat
  | [] => 0
  | slot :: rest =>
    (if slot.field = .reserved then 0 else slot.put (value slot.field)) ||| assemble value rest

/-! ## Fields that lie one behind the other -/

/-- Fields are placed from the first bit on. -/
theorem start_le_of_mem_place {fields : List (PointerField × Nat)} {start : Nat} {slot : BitSlot}
    (h : slot ∈ place start fields) : start ≤ slot.start := by
  induction fields generalizing start with
  | nil => cases h
  | cons f rest ih =>
    rcases List.mem_cons.1 h with rfl | h
    · exact le_refl start
    · exact (Nat.le_add_right start f.2).trans (ih h)

/-- Fields that lie one behind the other do not overlap. -/
theorem pairwise_apart_place (start : Nat) (fields : List (PointerField × Nat)) :
    (place start fields).Pairwise Apart := by
  induction fields generalizing start with
  | nil => exact List.Pairwise.nil
  | cons f rest ih =>
    refine List.pairwise_cons.2 ⟨?_, ih (start + f.2)⟩
    intro slot hslot i hi hother
    have hstart : start + f.2 ≤ slot.start := start_le_of_mem_place hslot
    exact absurd (hstart.trans hother.1) (Nat.not_le.2 hi.2)

/-- Fields that lie one behind the other leave no gap. -/
theorem exists_covers_place_iff (start : Nat) (fields : List (PointerField × Nat)) (i : Nat) :
    (∃ slot ∈ place start fields, slot.Covers i) ↔
      start ≤ i ∧ i < start + (fields.map Prod.snd).sum := by
  induction fields generalizing start with
  | nil => simp [place]
  | cons f rest ih =>
    rw [place, List.exists_mem_cons_iff, ih, List.map_cons, List.sum_cons, Covers]
    dsimp only
    omega

/-! ## Putting values back -/

/-- The bits of a field are those of the word, from the start of the field on. -/
theorem testBit_read (slot : BitSlot) (raw : UInt64) (i : Nat) :
    (slot.read raw).testBit i =
      (decide (i < slot.width) && raw.toNat.testBit (slot.start + i)) := by
  rw [read, Nat.testBit_mod_two_pow, Nat.testBit_div_two_pow, Nat.add_comm]

/-- What was read from a field is put back where it was. -/
theorem testBit_put_read (slot : BitSlot) (raw : UInt64) {value : Int}
    (h : value ≡ slot.read raw [ZMOD 2 ^ slot.width]) (i : Nat) :
    (slot.put value).testBit i = true ↔ slot.Covers i ∧ raw.toNat.testBit i = true := by
  have hlt : slot.read raw < 2 ^ slot.width := Nat.mod_lt _ (Nat.two_pow_pos slot.width)
  have hvalue : (value % 2 ^ slot.width).toNat = slot.read raw := by
    rw [h.eq]
    exact_mod_cast Nat.mod_eq_of_lt hlt
  -- the remainder is the value that was read, so its bits are those of the word
  rw [put, hvalue, Nat.testBit_shiftLeft, testBit_read, Covers, Bool.and_eq_true, Bool.and_eq_true,
    decide_eq_true_iff, decide_eq_true_iff]
  constructor
  · rintro ⟨hstart, hwidth, hbit⟩
    rw [Nat.add_sub_cancel' hstart] at hbit
    exact ⟨⟨hstart, by omega⟩, hbit⟩
  · rintro ⟨⟨hstart, hend⟩, hbit⟩
    rw [Nat.add_sub_cancel' hstart]
    exact ⟨hstart, by omega, hbit⟩

/-- Where every value is that of its field, the word that is put together from them has the bits of
the fields. -/
theorem testBit_assemble {slots : List BitSlot} {value : PointerField → Int} {raw : UInt64}
    (h : ∀ slot ∈ slots, slot.field ≠ .reserved →
      value slot.field ≡ slot.read raw [ZMOD 2 ^ slot.width]) (i : Nat) :
    (assemble value slots).testBit i = true ↔
      raw.toNat.testBit i = true ∧ ∃ slot ∈ slots, slot.field ≠ .reserved ∧ slot.Covers i := by
  induction slots with
  | nil => simp [assemble]
  | cons slot rest ih =>
    rw [assemble, Nat.testBit_or, Bool.or_eq_true,
      ih fun other hother => h other (List.mem_cons_of_mem slot hother),
      List.exists_mem_cons_iff]
    by_cases hfield : slot.field = .reserved
    · simp [hfield]
    · rw [if_neg hfield, testBit_put_read slot raw (h slot List.mem_cons_self hfield),
        and_comm, ← and_or_left]
      simp only [hfield, ne_eq, not_false_eq_true, true_and]

/-- Where fields fill a word without overlapping, the bits of the reserved ones are all that is
missing from the word that is put together. -/
theorem testBit_assemble_of_fills {slots : List BitSlot} {value : PointerField → Int}
    {raw : UInt64} {size : Nat}
    (h : ∀ slot ∈ slots, slot.field ≠ .reserved →
      value slot.field ≡ slot.read raw [ZMOD 2 ^ slot.width])
    (hapart : slots.Pairwise Apart)
    (hfills : ∀ i, (∃ slot ∈ slots, slot.Covers i) ↔ i < size) (hraw : raw.toNat < 2 ^ size)
    (i : Nat) :
    (assemble value slots).testBit i = true ↔
      raw.toNat.testBit i = true ∧ ∀ slot ∈ slots, slot.field = .reserved → ¬slot.Covers i := by
  rw [testBit_assemble h]
  refine and_congr_right fun hbit => ?_
  constructor
  · rintro ⟨slot, hslot, hfield, hcovers⟩ other hother hreserved hboth
    have hne : slot ≠ other := fun heq => hfield (heq ▸ hreserved)
    have hsymm : Std.Symm Apart := ⟨fun _ _ hab i hb ha => hab i ha hb⟩
    exact hapart.forall hslot hother hne i hcovers hboth
  · intro hfree
    have hi : i < size := by
      by_contra hge
      have hzero : raw.toNat.testBit i = false :=
        Nat.testBit_lt_two_pow (hraw.trans_le (Nat.pow_le_pow_right two_pos (Nat.not_lt.1 hge)))
      rw [hzero] at hbit
      cases hbit
    obtain ⟨slot, hslot, hcovers⟩ := (hfills i).2 hi
    exact ⟨slot, hslot, fun hreserved => hfree slot hslot hreserved hcovers, hcovers⟩

end BitSlot

/-! ## The fields of the layouts -/

/-- The fields of the words of a layout with their widths, from the lowest bit up. Where bound and
authenticated pointers have fields of their own, the upper bits tell which of them a word has. -/
def PointerFormat.fields (format : PointerFormat) (isBind isAuth : Bool) :
    List (PointerField × Nat) :=
  if format = 4 then [(.target, 30), (.next, 2)]
  else if format = 5 then [(.target, 26), (.next, 6)]
  else if format = 3 then
    let upper : List (PointerField × Nat) := [(.next, 5), (.isBind, 1)]
    if isBind then (.ordinal, 20) :: (.addend, 6) :: upper else (.target, 26) :: upper
  else if format = 2 || format = 6 then
    let upper : List (PointerField × Nat) := [(.next, 12), (.isBind, 1)]
    if isBind then (.ordinal, 24) :: (.addend, 8) :: (.reserved, 19) :: upper
    else (.target, 36) :: (.high8, 8) :: (.reserved, 7) :: upper
  else if format = 8 || format = 11 then
    [(.target, 30), (.reserved, 2), (.diversity, 16), (.reserved, 1), (.key, 2), (.next, 12),
      (.isAuth, 1)]
  else if format.isAuthenticated then
    let upper : List (PointerField × Nat) := [(.next, 11), (.isBind, 1), (.isAuth, 1)]
    let ordinal := if format = 12 then 24 else 16
    match isBind, isAuth with
    | true, true => (.ordinal, ordinal) :: (.reserved, 51 - ordinal) :: upper
    | true, false => (.ordinal, ordinal) :: (.reserved, 32 - ordinal) :: (.addend, 19) :: upper
    | false, true =>
      (.target, 32) :: (.diversity, 16) :: (.reserved, 1) :: (.key, 2) :: upper
    | false, false => (.target, 43) :: (.high8, 8) :: upper
  else []

namespace ChainedFixups

namespace PointerWord

/-- The pointer is bound. -/
@[simp]
def isBind : PointerWord → Bool
  | .rebase _ => false
  | .bind _ _ _ => true

/-- The pointer is authenticated. -/
@[simp]
def isAuth : PointerWord → Bool
  | .rebase r => r.auth
  | .bind _ _ auth => auth

/-- What a pointer and the distance to the next one report, zero for what such a pointer has not. -/
@[simp]
def value (word : PointerWord) (next : UInt64) : PointerField → Int
  | .target => match word with
    | .rebase r => r.target.toNat
    | .bind _ _ _ => 0
  | .ordinal => match word with
    | .rebase _ => 0
    | .bind ordinal _ _ => ordinal.toNat
  | .addend => match word with
    | .rebase _ => 0
    | .bind _ addend _ => addend
  | .high8 => match word with
    | .rebase r => r.high8.toNat
    | .bind _ _ _ => 0
  | .diversity => match word with
    | .rebase r => r.diversity.toNat
    | .bind _ _ _ => 0
  | .key => match word with
    | .rebase r => r.key.toNat
    | .bind _ _ _ => 0
  | .next => next.toNat
  | .isBind => word.isBind.toNat
  | .isAuth => word.isAuth.toNat
  | .reserved => 0

end PointerWord

end ChainedFixups

/-- The word of a decoded pointer: a bound one is given without the addend of its import. Sums and
differences wrap around at 64 bits. -/
def Fixup.word (imports : List Import) : Fixup → ChainedFixups.PointerWord
  | .rebase r => .rebase r
  | .bind b =>
    let added := (imports[b.ordinal.toNat]?.map (·.addend)).getD 0
    .bind b.ordinal (signed64 (wrap64 (b.addend - added))) b.auth

namespace ChainedFixups

/-- The fields of a word at their places. -/
def slots (format : PointerFormat) (word : PointerWord) : List BitSlot :=
  BitSlot.place 0 (format.fields word.isBind word.isAuth)

/-- What a pointer and the distance to the next one report is read from the fields of a word. -/
structure ReadsFields (format : PointerFormat) (raw : UInt64) (word : PointerWord)
    (next : UInt64) : Prop where
  /-- A value is the number in the bits of its field. Only the addends of authenticated layouts are
  signed. -/
  reads : ∀ slot ∈ slots format word, slot.field ≠ .reserved →
    ¬(slot.field = .addend ∧ format.isAuthenticated = true) →
      word.value next slot.field = slot.read raw
  /-- The signed addends are two's complements of nineteen bits. -/
  reads_signed : ∀ slot ∈ slots format word, slot.field = .addend →
    format.isAuthenticated = true →
      slot.width = 19 ∧ word.value next .addend ≡ slot.read raw [ZMOD 2 ^ 19]
  /-- The signed addends are in the range of such numbers. -/
  inRange_signed : format.isAuthenticated = true →
    -2 ^ 18 ≤ word.value next .addend ∧ word.value next .addend < 2 ^ 18
  /-- A value that is not zero has a field. -/
  shown : ∀ field, word.value next field ≠ 0 → ∃ slot ∈ slots format word, slot.field = field

/-- What a pointer and the distance to the next one report is spelled by a word: it is read from
fields that divide the word between them, and gives the word again. -/
structure SpelledBy (format : PointerFormat) (raw : UInt64) (word : PointerWord)
    (next : UInt64) : Prop extends ReadsFields format raw word next where
  /-- No bit belongs to two fields. -/
  apart : (slots format word).Pairwise BitSlot.Apart
  /-- Every bit of the word belongs to a field. -/
  fills : ∀ i, (∃ slot ∈ slots format word, slot.Covers i) ↔ i < 8 * format.size
  /-- A value has one field. -/
  once : (((slots format word).map (·.field)).filter (· ≠ .reserved)).Nodup
  /-- The values put back at their places give the word, with zeros for the reserved bits. -/
  restores : ∀ i, (BitSlot.assemble (word.value next) (slots format word)).testBit i = true ↔
    raw.toNat.testBit i = true ∧
      ∀ slot ∈ slots format word, slot.field = .reserved → ¬slot.Covers i

/-! ## What the fields of a word are read as -/

section Fields

variable {word : UInt64} {start count : Nat}

/-- A field of bits is a quotient with a remainder. -/
theorem toNat_bitField (hstart : start ≤ 64) (hcount : count ≤ 64) :
    (bitField word start count).toNat = word.toNat / 2 ^ start % 2 ^ count := by
  have hlt : word.toNat / 2 ^ start % 2 ^ count < 2 ^ 64 :=
    ((Nat.mod_le _ _).trans (Nat.div_le_self _ _)).trans_lt word.toNat_lt
  rw [bitField, Nat.min_eq_left hstart, Nat.min_eq_left hcount]
  exact UInt64.toNat_ofNat_of_lt' hlt

/-- A field of bits is less than two to the power of its width. -/
theorem toNat_bitField_lt (hstart : start ≤ 64) (hcount : count ≤ 64) :
    (bitField word start count).toNat < 2 ^ count := by
  rw [toNat_bitField hstart hcount]
  exact Nat.mod_lt _ (Nat.two_pow_pos count)

/-- A slot of bits is read as a field of bits. -/
theorem read_mk (field : PointerField) (hstart : start ≤ 64) (hcount : count ≤ 64) :
    (BitSlot.mk field start count).read word = (bitField word start count).toNat :=
  (toNat_bitField hstart hcount).symm

/-- A flag is one if it is set, else zero. -/
theorem toNat_decide_bitField (hstart : start ≤ 64) :
    (decide (bitField word start 1 ≠ 0)).toNat = (bitField word start 1).toNat := by
  have hlt : (bitField word start 1).toNat < 2 := toNat_bitField_lt hstart (by decide)
  by_cases h : bitField word start 1 = 0
  · rw [h]
    rfl
  · have hne : (bitField word start 1).toNat ≠ 0 := fun hzero => h (UInt64.toNat_inj.1 hzero)
    rw [decide_eq_true h, Bool.toNat_true]
    omega

/-- The index of an import is not cut off. -/
theorem toNat_bitField_emod (hstart : start ≤ 64) (hcount : count ≤ 32) :
    ((bitField word start count).toNat : Int) % 4294967296 = (bitField word start count).toNat := by
  have hlt : (bitField word start count).toNat < 2 ^ count :=
    toNat_bitField_lt hstart (by omega)
  exact_mod_cast Nat.mod_eq_of_lt (hlt.trans_le (Nat.pow_le_pow_right two_pos hcount))

end Fields

/-- The sign does not change a number modulo the width. -/
theorem signExtend_modEq (value : UInt64) (width : Nat) :
    signExtend value width ≡ value.toNat [ZMOD 2 ^ width] := by
  have h := Int.bmod_emod (x := (value.toNat : Int)) (m := Nat.pow 2 width)
  rw [signExtend, Int.ModEq]
  exact_mod_cast h

/-- A signed field of 19 bits holds a number of 19 bits. -/
theorem signExtend_inRange (value : UInt64) :
    -2 ^ 18 ≤ signExtend value 19 ∧ signExtend value 19 < 2 ^ 18 := by
  have hlow := Int.le_bmod (x := (value.toNat : Int)) (m := Nat.pow 2 19) (by decide)
  have hhigh := Int.bmod_lt (x := (value.toNat : Int)) (m := Nat.pow 2 19) (by decide)
  have hpow : Nat.pow 2 19 = 524288 := by decide
  rw [signExtend]
  rw [hpow] at hlow hhigh ⊢
  omega

/-! ## The fields fill the word -/

/-- The layouts that are decoded. -/
def formats : List PointerFormat := [1, 2, 3, 4, 5, 6, 7, 8, 9, 10, 11, 12]

/-- Whatever the kind of a pointer is, its fields are as long as the word together, none of them
stands in it twice, and addends are short. -/
theorem fields_fill {format : PointerFormat} (h : format ∈ formats) (isBind isAuth : Bool) :
    ((format.fields isBind isAuth).map Prod.snd).sum = 8 * format.size ∧
      (((BitSlot.place 0 (format.fields isBind isAuth)).map (·.field)).filter
        (· ≠ .reserved)).Nodup ∧
      ∀ slot ∈ BitSlot.place 0 (format.fields isBind isAuth), slot.field = .addend →
        slot.width ≤ 19 := by
  simp only [formats, List.mem_cons, List.not_mem_nil, or_false] at h
  rcases h with rfl | rfl | rfl | rfl | rfl | rfl | rfl | rfl | rfl | rfl | rfl | rfl <;>
    cases isBind <;> cases isAuth <;> exact ⟨rfl, by decide, by decide⟩

variable {word : PointerWord} {format : PointerFormat} {location raw next : UInt64}

/-- A field may be read as what stands in it modulo its width, signed or not. -/
theorem ReadsFields.modEq (h : ReadsFields format raw word next) {slot : BitSlot}
    (hslot : slot ∈ slots format word) (hfield : slot.field ≠ .reserved) :
    word.value next slot.field ≡ slot.read raw [ZMOD 2 ^ slot.width] := by
  by_cases hsigned : slot.field = .addend ∧ format.isAuthenticated = true
  · obtain ⟨hwidth, hmod⟩ := h.reads_signed slot hslot hsigned.1 hsigned.2
    rw [hsigned.1, hwidth]
    exact hmod
  · rw [h.reads slot hslot hfield hsigned]

/-- A word whose fields are read spells the pointer. -/
theorem ReadsFields.spelledBy (h : ReadsFields format raw word next) (hformat : format ∈ formats)
    (hraw : raw.toNat < 2 ^ (8 * format.size)) : SpelledBy format raw word next := by
  obtain ⟨hsize, honce, -⟩ := fields_fill hformat word.isBind word.isAuth
  have hapart : (slots format word).Pairwise BitSlot.Apart := BitSlot.pairwise_apart_place _ _
  have hfills (i : Nat) : (∃ slot ∈ slots format word, slot.Covers i) ↔ i < 8 * format.size := by
    rw [slots, BitSlot.exists_covers_place_iff, hsize]
    omega
  exact ⟨h, hapart, hfills, honce,
    BitSlot.testBit_assemble_of_fills (fun _ => h.modEq) hapart hfills hraw⟩

/-! ## Decoding reads the fields -/

/-- Where no addend is signed, it is enough that the values are those of their fields. -/
theorem ReadsFields.of_slots (list : List BitSlot) (hslots : slots format word = list)
    (hunsigned : format.isAuthenticated = true →
      word.value next .addend = 0 ∧ ∀ slot ∈ list, slot.field ≠ .addend)
    (hreads : ∀ slot ∈ list, slot.field ≠ .reserved →
      word.value next slot.field = slot.read raw)
    (hshown : ∀ field, word.value next field ≠ 0 → ∃ slot ∈ list, slot.field = field) :
    ReadsFields format raw word next := by
  subst hslots
  refine ⟨fun slot hslot hfield _ => hreads slot hslot hfield, ?_, ?_, hshown⟩
  -- a format without authentication has no signed addend to speak of
  · intro slot hslot hfield hauth
    exact absurd hfield ((hunsigned hauth).2 slot hslot)
  · intro hauth
    rw [(hunsigned hauth).1]
    decide

/-- The fields of a word that may be authenticated. -/
theorem slots_of_isAuthenticated (h : format.isAuthenticated = true) (word : PointerWord) :
    let ordinal := if format = 12 then 24 else 16
    let upper : List BitSlot := [⟨.next, 51, 11⟩, ⟨.isBind, 62, 1⟩, ⟨.isAuth, 63, 1⟩]
    slots format word =
      match word.isBind, word.isAuth with
      | true, true => ⟨.ordinal, 0, ordinal⟩ :: ⟨.reserved, ordinal, 51 - ordinal⟩ :: upper
      | true, false =>
        ⟨.ordinal, 0, ordinal⟩ :: ⟨.reserved, ordinal, 32 - ordinal⟩ :: ⟨.addend, 32, 19⟩ :: upper
      | false, true =>
        ⟨.target, 0, 32⟩ :: ⟨.diversity, 32, 16⟩ :: ⟨.reserved, 48, 1⟩ :: ⟨.key, 49, 2⟩ :: upper
      | false, false => ⟨.target, 0, 43⟩ :: ⟨.high8, 43, 8⟩ :: upper := by
  simp only [PointerFormat.isAuthenticated, Bool.or_eq_true, decide_eq_true_iff] at h
  rw [slots]
  -- what the two top bits say selects one of four layouts
  rcases h with (((rfl | rfl) | rfl) | rfl) | rfl <;>
    cases word.isBind <;> cases word.isAuth <;> rfl

namespace PointerWord

/-- The fields in the formats of 32 bits. -/
private theorem readsFields_narrow (hformat : format = 3 ∨ format = 4 ∨ format = 5)
    (h : ofRaw format location raw = .ok (word, next)) : ReadsFields format raw word next := by
  unfold ofRaw at h
  dsimp only at h
  rcases hformat with rfl | rfl | rfl
  · rw [if_neg (by decide), if_neg (by decide), if_pos rfl] at h
    split at h
    · rename_i hbind
      cases h
      refine .of_slots [⟨.ordinal, 0, 20⟩, ⟨.addend, 20, 6⟩, ⟨.next, 26, 5⟩, ⟨.isBind, 31, 1⟩] rfl
        nofun ?_ ?_
      · simp (disch := decide) [read_mk, ← toNat_decide_bitField, hbind, toNat_bitField_emod]
      · rintro (_ | _) <;> simp
    · rename_i hbind
      cases h
      refine .of_slots [⟨.target, 0, 26⟩, ⟨.next, 26, 5⟩, ⟨.isBind, 31, 1⟩] rfl nofun ?_ ?_
      · simp (disch := decide) [read_mk, not_not.1 hbind]
      · rintro (_ | _) <;> simp
  · rw [if_pos rfl] at h
    cases h
    refine .of_slots [⟨.target, 0, 30⟩, ⟨.next, 30, 2⟩] rfl nofun ?_ ?_
    · simp (disch := decide) [read_mk]
    · rintro (_ | _) <;> simp
  · rw [if_neg (by decide), if_pos rfl] at h
    cases h
    refine .of_slots [⟨.target, 0, 26⟩, ⟨.next, 26, 6⟩] rfl nofun ?_ ?_
    · simp (disch := decide) [read_mk]
    · rintro (_ | _) <;> simp

/-- The fields in the formats of 64 bits without authentication. -/
private theorem readsFields_wide (hformat : format = 2 ∨ format = 6)
    (h : ofRaw format location raw = .ok (word, next)) : ReadsFields format raw word next := by
  obtain ⟨h4, h5, h3⟩ : format ≠ 4 ∧ format ≠ 5 ∧ format ≠ 3 := by
    rcases hformat with rfl | rfl <;> decide
  unfold ofRaw at h
  dsimp only at h
  rw [if_neg h4, if_neg h5, if_neg h3, if_pos (by simpa using hformat)] at h
  split at h
  · rename_i hbind
    cases h
    refine .of_slots [⟨.ordinal, 0, 24⟩, ⟨.addend, 24, 8⟩, ⟨.reserved, 32, 19⟩, ⟨.next, 51, 12⟩,
      ⟨.isBind, 63, 1⟩] ?_ ?_ ?_ ?_
    · rcases hformat with rfl | rfl <;> rfl
    · rcases hformat with rfl | rfl <;> nofun
    · simp (disch := decide) [read_mk, ← toNat_decide_bitField, hbind, toNat_bitField_emod]
    · rintro (_ | _) <;> simp
  · rename_i hbind
    cases h
    refine .of_slots [⟨.target, 0, 36⟩, ⟨.high8, 36, 8⟩, ⟨.reserved, 44, 7⟩, ⟨.next, 51, 12⟩,
      ⟨.isBind, 63, 1⟩] ?_ ?_ ?_ ?_
    · rcases hformat with rfl | rfl <;> rfl
    · rcases hformat with rfl | rfl <;> nofun
    · simp (disch := decide) [read_mk, not_not.1 hbind]
    · rintro (_ | _) <;> simp

/-- The fields in the formats of kernel caches. -/
private theorem readsFields_kernelCache (hformat : format = 8 ∨ format = 11)
    (h : ofRaw format location raw = .ok (word, next)) : ReadsFields format raw word next := by
  obtain ⟨h4, h5, h3, h2, h6⟩ :
      format ≠ 4 ∧ format ≠ 5 ∧ format ≠ 3 ∧ format ≠ 2 ∧ format ≠ 6 := by
    rcases hformat with rfl | rfl <;> decide
  unfold ofRaw at h
  dsimp only at h
  rw [if_neg h4, if_neg h5, if_neg h3, if_neg (by simp [h2, h6]), if_pos (by simpa using hformat)]
    at h
  cases h
  refine .of_slots [⟨.target, 0, 30⟩, ⟨.reserved, 30, 2⟩, ⟨.diversity, 32, 16⟩,
    ⟨.reserved, 48, 1⟩, ⟨.key, 49, 2⟩, ⟨.next, 51, 12⟩, ⟨.isAuth, 63, 1⟩] ?_ ?_ ?_ ?_
  · rcases hformat with rfl | rfl <;> rfl
  · rcases hformat with rfl | rfl <;> nofun
  · simp (disch := decide) [read_mk, ← toNat_decide_bitField]
  · rintro (_ | _) <;> simp

/-- The fields in the formats with authentication. -/
private theorem readsFields_authenticated (hformat : format.isAuthenticated = true)
    (h : ofRaw format location raw = .ok (word, next)) : ReadsFields format raw word next := by
  obtain ⟨h4, h5, h3, h2, h6, h8, h11⟩ : format ≠ 4 ∧ format ≠ 5 ∧ format ≠ 3 ∧ format ≠ 2 ∧
      format ≠ 6 ∧ format ≠ 8 ∧ format ≠ 11 := by
    refine ⟨?_, ?_, ?_, ?_, ?_, ?_, ?_⟩ <;> rintro rfl <;> cases hformat
  have hslots := slots_of_isAuthenticated hformat
  have hordinal : (if format = 12 then 24 else 16) ≤ 32 := by split <;> decide
  unfold ofRaw at h
  dsimp only at h hslots
  rw [if_neg h4, if_neg h5, if_neg h3, if_neg (by simp [h2, h6]), if_neg (by simp [h8, h11]),
    if_pos hformat] at h
  generalize (if format = 12 then 24 else 16) = ordinal at h hslots hordinal
  split at h <;> rename_i hbind hauth <;> cases h
  · refine .of_slots _ (hslots _) (fun _ => by simp) ?_ ?_
    · simp (disch := omega) [read_mk, ← toNat_decide_bitField, hbind, hauth, toNat_bitField_emod]
    · rintro (_ | _) <;> simp
  · -- the addend is signed
    have hslots := hslots (.bind (bitField raw 0 ordinal).toUInt32
      (signExtend (bitField raw 32 19) 19) false)
    refine ⟨?_, ?_, fun _ => signExtend_inRange _, ?_⟩ <;> rw [hslots]
    · simp (disch := omega) [read_mk, ← toNat_decide_bitField, hbind, hauth, toNat_bitField_emod,
        hformat]
    · have hmod := signExtend_modEq (bitField raw 32 19) 19
      simpa (disch := omega) [read_mk] using fun _ => hmod
    · rintro (_ | _) <;> simp
  · refine .of_slots _ (hslots _) (fun _ => by simp) ?_ ?_
    · simp (disch := omega) [read_mk, ← toNat_decide_bitField, hbind, hauth]
    · rintro (_ | _) <;> simp
  · refine .of_slots _ (hslots _) (fun _ => by simp) ?_ ?_
    · simp (disch := omega) [read_mk, ← toNat_decide_bitField, hbind, hauth]
    · rintro (_ | _) <;> simp

/-- Words of other layouts are refused. -/
theorem mem_formats_of_ofRaw (h : ofRaw format location raw = .ok (word, next)) :
    format ∈ formats := by
  by_contra hformat
  simp only [formats, List.mem_cons, List.not_mem_nil, or_false, not_or] at hformat
  simp [ofRaw, PointerFormat.isAuthenticated, hformat] at h

/-- Every layout reads the fields of its words. -/
theorem ofRaw_readsFields (h : ofRaw format location raw = .ok (word, next)) :
    ReadsFields format raw word next := by
  have hformat := mem_formats_of_ofRaw h
  simp only [formats, List.mem_cons, List.not_mem_nil, or_false] at hformat
  rcases hformat with
    rfl | rfl | rfl | rfl | rfl | rfl | rfl | rfl | rfl | rfl | rfl | rfl
  · exact readsFields_authenticated rfl h
  · exact readsFields_wide (by decide) h
  · exact readsFields_narrow (by decide) h
  · exact readsFields_narrow (by decide) h
  · exact readsFields_narrow (by decide) h
  · exact readsFields_wide (by decide) h
  · exact readsFields_authenticated rfl h
  · exact readsFields_kernelCache (by decide) h
  · exact readsFields_authenticated rfl h
  · exact readsFields_authenticated rfl h
  · exact readsFields_kernelCache (by decide) h
  · exact readsFields_authenticated rfl h

end PointerWord

/-! ## The words of decoded pointers -/

/-- The addend that a word gives is a small number, whatever the layout is. -/
theorem ReadsFields.addend_small (h : ReadsFields format raw word next)
    (hformat : format ∈ formats) :
    -2 ^ 19 ≤ word.value next .addend ∧ word.value next .addend < 2 ^ 19 := by
  by_cases hsigned : format.isAuthenticated = true
  · have hrange := h.inRange_signed hsigned
    omega
  · by_cases hzero : word.value next .addend = 0
    · rw [hzero]
      decide
    · obtain ⟨slot, hslot, hfield⟩ := h.shown .addend hzero
      have hwidth := (fields_fill hformat word.isBind word.isAuth).2.2 slot hslot hfield
      have hlt : slot.read raw < 2 ^ 19 :=
        (Nat.mod_lt _ (Nat.two_pow_pos slot.width)).trans_le (Nat.pow_le_pow_right two_pos hwidth)
      have hread := h.reads slot hslot (by simp [hfield]) fun hboth => hsigned hboth.2
      rw [hfield] at hread
      rw [hread]
      omega

/-- The word of a decoded pointer is the one that was decoded. -/
theorem ofRaw_of_decodePointer {imports : List Import} {fixup : Fixup}
    (h : decodePointer imports format location raw = .ok (fixup, next)) :
    PointerWord.ofRaw format location raw = .ok (fixup.word imports, next) := by
  rw [decodePointer] at h
  obtain ⟨⟨word, distance⟩, hword, h⟩ := Except.bind_eq_ok_iff.1 h
  cases word with
  | rebase r =>
    cases h
    exact hword
  | bind ordinal addend auth =>
    obtain ⟨bound, hbound, h⟩ := Except.bind_eq_ok_iff.1 h
    cases h
    rw [bindPointer] at hbound
    split at hbound
    · cases hbound
    · rename_i target htarget
      cases hbound
      -- the sum wraps around, but the addend of the word is small enough to come out again
      have hsmall : -2 ^ 19 ≤ addend ∧ addend < 2 ^ 19 :=
        (PointerWord.ofRaw_readsFields hword).addend_small (PointerWord.mem_formats_of_ofRaw hword)
      have haddend : signed64 (wrap64 (signed64 (wrap64 (addend + target.addend)) -
          target.addend)) = addend := by
        rw [signed64_wrap64, signed64_wrap64, Int.bmod_sub_bmod, add_sub_cancel_right]
        exact Int.bmod_eq_of_le_mul_two (by omega) (by omega)
      rw [hword]
      simp [Fixup.word, htarget, haddend]

/-- Every bit of a word of a chain is read once. Whatever layout a word is decoded by, the fields of
its layout divide the word between them; the kind of the pointer, its target or its import, its
addend (without that of the import), its upper byte, its diversity, its key and the distance to the
next pointer are the numbers in these fields; and put back at their places they give the word, with
zeros for the reserved bits. -/
theorem decodePointer_spelledBy {imports : List Import} {fixup : Fixup}
    (h : decodePointer imports format location raw = .ok (fixup, next))
    (hraw : format.is32 = true → raw.toNat < 2 ^ 32) :
    SpelledBy format raw (fixup.word imports) next := by
  have hword := ofRaw_of_decodePointer h
  refine (PointerWord.ofRaw_readsFields hword).spelledBy (PointerWord.mem_formats_of_ofRaw hword) ?_
  rw [PointerFormat.size]
  split
  · exact hraw ‹_›
  · exact raw.toNat_lt

/-- A word that binds the third import with the addend -2, five strides in front of the next one. -/
def sampleWord : UInt64 := 0x402FFFFE00000002

/-- Three imports, the last one with an addend of its own. -/
def sampleImports : List Import :=
  [⟨"_objc_msgSend", 1, false, 0⟩, ⟨"_objc_retain", 1, false, 0⟩, ⟨"_table", 2, true, 8⟩]

/-- The negative addend is read from nineteen bits, and the word is its fields. -/
theorem decodePointer_sampleWord :
    let bound : Bind :=
      { location := 0x4000, raw := sampleWord, format := 12, ordinal := 2, addend := 6,
        symbol := "_table" }
    decodePointer sampleImports 12 0x4000 sampleWord = .ok (.bind bound, 5) ∧
      SpelledBy 12 sampleWord (.bind 2 (-2) false) 5 := by
  intro bound
  -- the import of ordinal two adds eight to the addend of the word, which is minus two
  have hdecode : decodePointer sampleImports 12 0x4000 sampleWord = .ok (.bind bound, 5) := by
    decide +kernel
  have hword : (Fixup.bind bound).word sampleImports = .bind 2 (-2) false := by
    decide +kernel
  have hspelled := decodePointer_spelledBy hdecode (by decide)
  rw [hword] at hspelled
  exact ⟨hdecode, hspelled⟩

end ChainedFixups

end ObjcLens
