import Mathlib
import ObjcLens.CommandCode

/-!
# Names in fields of sixteen bytes

A field of an image has sixteen bytes for a name. `putName` goes through the name character by
character and puts the first byte of each at its place. It stops at a character that starts right
behind the field; where a character lies over the end of the field there is none, and it goes on
behind the field.

So a name is copied byte for byte if every byte in the field is the start of a character, and what
is behind the field stays as it is if no character lies over its end. Both hold of ASCII names.

## Main results

* `characterStarts_increasing`, `lt_length_of_startsCharacter`: where characters start.
* `putName_eq_none_iff`, `getElem?_of_putName`: when there is no result, and what a result holds.
* `FitsField.copies`, `fitsField_of_copies`, `fitsField_of_ascii`: names that are copied.
* `putName_copies_iff`: the names that are copied into every buffer.
* `putName_spills`: a name that is neither copied nor kept in its field.
-/

namespace ObjcLens

/-! ## Where characters start -/

theorem Rune.width_pos (first : UInt8) (rest : Text) : 0 < (Rune.decode first rest).width := by
  unfold Rune.decode
  repeat' split
  all_goals exact Nat.succ_pos _

theorem le_of_mem_characterStarts {place : Nat} {runes : List Rune} {start : Nat}
    (h : start ∈ characterStarts place runes) : place ≤ start := by
  induction runes generalizing place with
  | nil => cases h
  | cons r rest ih =>
    rcases List.mem_cons.1 h with rfl | h
    · exact le_refl start
    · exact (Nat.le_add_right place r.width).trans (ih h)

/-- Characters that are not empty start one behind the other. -/
theorem characterStarts_increasing {runes : List Rune} (h : ∀ r ∈ runes, 0 < r.width)
    (place : Nat) : (characterStarts place runes).Pairwise (· < ·) := by
  induction runes generalizing place with
  | nil => exact List.Pairwise.nil
  | cons r rest ih =>
    obtain ⟨hr, hrest⟩ := List.forall_mem_cons.1 h
    refine List.pairwise_cons.2 ⟨?_, ih hrest _⟩
    intro start hstart
    have hle := le_of_mem_characterStarts hstart
    omega

/-- The characters of a text are not empty, and start inside the text. -/
theorem Rune.ofTextAux_spec (skip : Nat) (s : Text) (place : Nat) :
    (∀ r ∈ Rune.ofTextAux skip s, 0 < r.width) ∧
      ∀ start ∈ characterStarts (place + skip) (Rune.ofTextAux skip s),
        start < place + s.length := by
  induction s generalizing skip place with
  | nil => simp [Rune.ofTextAux, characterStarts]
  | cons b rest ih =>
    cases skip with
    | succ skip =>
      obtain ⟨hwidth, hstart⟩ := ih skip (place + 1)
      refine ⟨hwidth, fun start h => ?_⟩
      have hplace : place + (skip + 1) = place + 1 + skip := by omega
      rw [Rune.ofTextAux, hplace] at h
      have hlt := hstart start h
      rw [List.length_cons]
      omega
    | zero =>
      have hpos := Rune.width_pos b rest
      obtain ⟨hwidth, hstart⟩ := ih ((Rune.decode b rest).width - 1) (place + 1)
      rw [Rune.ofTextAux]
      refine ⟨List.forall_mem_cons.2 ⟨hpos, hwidth⟩, fun start h => ?_⟩
      rw [List.length_cons]
      rcases List.mem_cons.1 h with rfl | h
      · omega
      · -- the next character starts where this one ends
        have hplace : place + 0 + (Rune.decode b rest).width =
            place + 1 + ((Rune.decode b rest).width - 1) := by
          omega
        rw [hplace] at h
        have hlt := hstart start h
        omega

/-- In a text of ASCII characters, one starts at every byte. -/
theorem characterStarts_ascii {s : Text} (h : ∀ b ∈ s, b < 0x80) (place : Nat) :
    characterStarts place (Rune.ofText s) = List.range' place s.length := by
  induction s generalizing place with
  | nil => rfl
  | cons b rest ih =>
    obtain ⟨hb, hrest⟩ := List.forall_mem_cons.1 h
    have hdecode : Rune.decode b rest = ⟨b.toNat, 1⟩ := if_pos hb
    rw [Rune.ofText, Rune.ofTextAux, hdecode]
    exact congrArg (place :: ·) (ih hrest (place + 1))

/-- A character of the text starts at the place: the characters in front of it are as long as the
place says. -/
def StartsCharacter (s : Text) (place : Nat) : Prop :=
  ∃ k < (Rune.ofText s).length, place = (((Rune.ofText s).take k).map (·.width)).sum

/-- A character starts behind the widths of those before it. -/
theorem mem_characterStarts_iff {place : Nat} {runes : List Rune} {start : Nat} :
    start ∈ characterStarts place runes ↔
      ∃ k < runes.length, start = place + ((runes.take k).map (·.width)).sum := by
  induction runes generalizing place with
  | nil => simp [characterStarts]
  | cons r rest ih =>
    rw [characterStarts, List.mem_cons, ih]
    constructor
    · rintro (rfl | ⟨k, hk, rfl⟩)
      · exact ⟨0, by simp, by simp⟩
      · exact ⟨k + 1, by simpa using hk, by simp [Nat.add_assoc]⟩
    · rintro ⟨k, hk, rfl⟩
      cases k with
      | zero => exact .inl (by simp)
      | succ k => exact .inr ⟨k, by simpa using hk, by simp [Nat.add_assoc]⟩

/-- The places the loop visits are those where a character of the text starts. -/
theorem startsCharacter_iff {s : Text} {place : Nat} :
    StartsCharacter s place ↔ place ∈ characterStarts 0 (Rune.ofText s) := by
  simp [StartsCharacter, mem_characterStarts_iff]

/-- A character starts within the text. -/
theorem lt_length_of_startsCharacter {s : Text} {place : Nat} (h : StartsCharacter s place) :
    place < s.length := by
  have hlt := (Rune.ofTextAux_spec 0 s 0).2 place (startsCharacter_iff.1 h)
  omega

/-- Of an increasing list, the part in front of a value. -/
theorem mem_takeWhile_ne_iff {l : List Nat} (h : l.Pairwise (· < ·)) {a p : Nat} :
    p ∈ l.takeWhile (· != a) ↔ p ∈ l ∧ (a ∈ l → p < a) := by
  induction l with
  | nil => simp
  | cons b rest ih =>
    obtain ⟨hb, hrest⟩ := List.pairwise_cons.1 h
    by_cases hba : b = a
    · subst hba
      have hnone : p ∈ b :: rest → ¬p < b := by
        intro hp
        rcases List.mem_cons.1 hp with rfl | hp
        · exact lt_irrefl p
        · exact (hb p hp).not_gt
      simpa using hnone
    · rw [List.takeWhile_cons_of_pos (by simpa using hba), List.mem_cons, ih hrest, List.mem_cons,
        List.mem_cons]
      constructor
      · rintro (rfl | ⟨hp, hlt⟩)
        · exact ⟨.inl rfl, fun ha => ha.elim (fun h => absurd h.symm hba) (hb a)⟩
        · exact ⟨.inr hp, fun ha => hlt (ha.resolve_left (Ne.symm hba))⟩
      · rintro ⟨rfl | hp, hlt⟩
        · exact .inl rfl
        · exact .inr ⟨hp, fun ha => hlt (.inr ha)⟩

/-! ## Which bytes are written -/

/-- The buffer with the byte of a name at a place, if the place is in the buffer. -/
def putByte? (name buffer : Text) (place : Nat) : Option Text :=
  if place < buffer.length then some (buffer.set place (name.getD place 0)) else none

/-- The bytes at places of the buffer are written, and no others. -/
theorem foldlM_putByte?_eq_some (name : Text) {places : List Nat} {buffer : Text}
    (h : ∀ p ∈ places, p < buffer.length) :
    ∃ written, places.foldlM (putByte? name) buffer = some written ∧
      written.length = buffer.length ∧
      ∀ i, written[i]? = if i ∈ places then some (name.getD i 0) else buffer[i]? := by
  induction places generalizing buffer with
  | nil => exact ⟨buffer, rfl, rfl, by simp⟩
  | cons p rest ih =>
    obtain ⟨hp, hrest⟩ := List.forall_mem_cons.1 h
    have hset : ∀ q ∈ rest, q < (buffer.set p (name.getD p 0)).length := by simpa using hrest
    obtain ⟨written, hwritten, hlength, hbytes⟩ := ih hset
    refine ⟨written, ?_, by simpa using hlength, fun i => ?_⟩
    · rw [List.foldlM_cons, putByte?, if_pos hp]
      exact hwritten
    -- a place that is written twice gets the same byte both times
    · rw [hbytes, List.getElem?_set]
      by_cases hi : i ∈ rest
      · simp [hi]
      · by_cases hpi : p = i
        · subst hpi
          simp [hi, hp]
        · simp [hi, hpi, Ne.symm hpi]

/-- A place beyond the buffer makes the whole copy fail. -/
theorem foldlM_putByte?_eq_none (name : Text) {places : List Nat} {buffer : Text}
    (h : ∃ p ∈ places, buffer.length ≤ p) : places.foldlM (putByte? name) buffer = none := by
  induction places generalizing buffer with
  | nil => simp at h
  | cons p rest ih =>
    rw [List.foldlM_cons, putByte?]
    by_cases hp : p < buffer.length
    · obtain ⟨q, hq, hle⟩ := h
      have hrest : q ∈ rest := by
        rcases List.mem_cons.1 hq with rfl | hq
        · omega
        · exact hq
      rw [if_pos hp]
      exact ih ⟨q, hrest, by simpa using hle⟩
    · rw [if_neg hp]
      rfl

/-- The byte at the place is put into the buffer: a character starts there, in front of the one that
starts behind sixteen bytes, if there is such a character. -/
def IsPut (name : Text) (place : Nat) : Prop :=
  StartsCharacter name place ∧ (StartsCharacter name 16 → place < 16)

instance (name : Text) (place : Nat) : Decidable (IsPut name place) :=
  decidable_of_iff
    (place ∈ characterStarts 0 (Rune.ofText name) ∧
      (16 ∈ characterStarts 0 (Rune.ofText name) → place < 16))
    (by rw [IsPut, startsCharacter_iff, startsCharacter_iff])

/-- The loop stops before the first character that starts at byte sixteen. -/
theorem mem_places_iff {name : Text} {place : Nat} :
    place ∈ (characterStarts 0 (Rune.ofText name)).takeWhile (· != 16) ↔ IsPut name place := by
  have hincreasing := characterStarts_increasing (Rune.ofTextAux_spec 0 name 0).1 0
  rw [IsPut, startsCharacter_iff, startsCharacter_iff]
  exact mem_takeWhile_ne_iff hincreasing

/-- If all places are in the buffer, the first byte of every character is put at its place, and all
other bytes stay. -/
theorem putName_eq_some {buffer name : Text} (h : ∀ i, IsPut name i → i < buffer.length) :
    ∃ written, putName buffer name = some written ∧ written.length = buffer.length ∧
      ∀ i, written[i]? = if IsPut name i then name[i]? else buffer[i]? := by
  obtain ⟨written, hwritten, hlength, hbytes⟩ :=
    foldlM_putByte?_eq_some name fun p hp => h p (mem_places_iff.1 hp)
  refine ⟨written, hwritten, hlength, fun i => ?_⟩
  rw [hbytes i]
  by_cases hi : IsPut name i
  · have hlt := lt_length_of_startsCharacter hi.1
    rw [if_pos (mem_places_iff.2 hi), if_pos hi, List.getElem?_eq_getElem hlt,
      List.getD_eq_getElem _ _ hlt]
  · rw [if_neg fun hmem => hi (mem_places_iff.1 hmem), if_neg hi]

/-- There is no result if a place lies outside the buffer. -/
theorem putName_eq_none {buffer name : Text} (h : ∃ i, IsPut name i ∧ buffer.length ≤ i) :
    putName buffer name = none := by
  obtain ⟨i, hi, hle⟩ := h
  exact foldlM_putByte?_eq_none name ⟨i, mem_places_iff.2 hi, hle⟩

/-- Copying a name fails exactly when it would write behind the end of the buffer. -/
theorem putName_eq_none_iff {buffer name : Text} :
    putName buffer name = none ↔ ∃ i, IsPut name i ∧ buffer.length ≤ i := by
  refine ⟨fun hnone => ?_, putName_eq_none⟩
  by_contra hinside
  push Not at hinside
  obtain ⟨written, hwritten, -⟩ := putName_eq_some hinside
  rw [hnone] at hwritten
  cases hwritten

/-- A copy changes the places it puts and no other, and keeps the length. -/
theorem getElem?_of_putName {buffer name written : Text} (h : putName buffer name = some written) :
    written.length = buffer.length ∧
      ∀ i, written[i]? = if IsPut name i then name[i]? else buffer[i]? := by
  have hinside : ∀ i, IsPut name i → i < buffer.length := by
    intro i hi
    by_contra hout
    rw [putName_eq_none ⟨i, hi, not_lt.1 hout⟩] at h
    cases h
  obtain ⟨result, hresult, hlength, hbytes⟩ := putName_eq_some hinside
  cases h.symm.trans hresult
  exact ⟨hlength, hbytes⟩

/-! ## Names that are copied -/

/-- The first sixteen bytes of a name are copied into a buffer, and the other bytes of the buffer
stay. -/
def Copies (buffer name : Text) : Prop :=
  ∃ written, putName buffer name = some written ∧ written.length = buffer.length ∧
    ∀ i, written[i]? = if i < min 16 name.length then name[i]? else buffer[i]?

/-- A character starts at each of the first sixteen bytes of a name, and if others start behind
them, one starts right behind them. -/
structure FitsField (name : Text) : Prop where
  /-- A character starts at every byte in the field. -/
  single : ∀ i < min 16 name.length, StartsCharacter name i
  /-- If characters start behind the field, one starts right behind it. -/
  ends : ∀ i, 16 < i → StartsCharacter name i → StartsCharacter name 16

/-- Of a name that fits the field, the first sixteen bytes are put. -/
theorem FitsField.isPut_iff {name : Text} (h : FitsField name) (i : Nat) :
    IsPut name i ↔ i < min 16 name.length := by
  constructor
  · rintro ⟨hstart, hbefore⟩
    have hlt := lt_length_of_startsCharacter hstart
    by_contra hge
    have hfar : 16 ≤ i := by omega
    -- a character right behind the field ends the writing, and one further on implies that one
    rcases Nat.eq_or_lt_of_le hfar with rfl | hfar
    · exact absurd (hbefore hstart) (lt_irrefl 16)
    · have hlt16 := hbefore (h.ends i hfar hstart)
      omega
  · intro hi
    exact ⟨h.single i hi, fun _ => by omega⟩

/-- A name that fits is copied into every buffer that has the field. -/
theorem FitsField.copies {name : Text} (h : FitsField name) {buffer : Text}
    (hbuffer : 16 ≤ buffer.length) : Copies buffer name := by
  have hinside : ∀ i, IsPut name i → i < buffer.length := by
    intro i hi
    have hlt := (h.isPut_iff i).1 hi
    omega
  obtain ⟨written, hwritten, hlength, hbytes⟩ := putName_eq_some hinside
  refine ⟨written, hwritten, hlength, fun i => ?_⟩
  rw [hbytes i]
  simp only [h.isPut_iff i]

/-- A name fits if it is copied into the buffers that are the field and nothing else. -/
theorem fitsField_of_copies {name : Text}
    (h : ∀ buffer : Text, buffer.length = 16 → Copies buffer name) : FitsField name := by
  constructor
  · intro i hi
    by_contra hstart
    have hname : i < name.length := by omega
    have hfield : i < 16 := by omega
    obtain ⟨written, hwritten, -, hcopied⟩ := h (List.replicate 16 (name[i] + 1)) (by simp)
    have hkept := (getElem?_of_putName hwritten).2 i
    rw [if_neg fun hput => hstart hput.1, hcopied i, if_pos hi, List.getElem?_eq_getElem hname,
      List.getElem?_replicate, if_pos hfield] at hkept
    have hsame : name[i] = name[i] + 1 := Option.some.inj hkept
    simp at hsame
  · intro i hi hstart
    by_contra hnone
    -- nothing stops the run in front of the place, which is behind the end of the buffer
    obtain ⟨written, hwritten, -⟩ := h (List.replicate 16 0) (by simp)
    have hput : IsPut name i := ⟨hstart, fun h16 => absurd h16 hnone⟩
    rw [putName_eq_none ⟨i, hput, by simp; omega⟩] at hwritten
    cases hwritten

/-- A name of ASCII characters fits. -/
theorem fitsField_of_ascii {name : Text} (h : ∀ b ∈ name, b < 0x80) : FitsField name := by
  have hstarts (i : Nat) : StartsCharacter name i ↔ i < name.length := by
    rw [startsCharacter_iff, characterStarts_ascii h, List.mem_range'_1]
    omega
  constructor
  · intro i hi
    exact (hstarts i).2 (by omega)
  · intro i hi hstart
    have hlt := (hstarts i).1 hstart
    exact (hstarts 16).2 (hi.trans hlt)

/-- What is put into a buffer, when there is no result, and which names are copied byte for byte
into every buffer that has the field. -/
theorem putName_copies_iff (name : Text) :
    (∀ buffer : Text, putName buffer name = none ↔ ∃ i, IsPut name i ∧ buffer.length ≤ i) ∧
      (∀ buffer : Text, ∀ written ∈ putName buffer name, written.length = buffer.length ∧
        ∀ i, written[i]? = if IsPut name i then name[i]? else buffer[i]?) ∧
      ((∀ buffer : Text, 16 ≤ buffer.length → Copies buffer name) ↔ FitsField name) := by
  refine ⟨fun _ => putName_eq_none_iff, fun _ _ h => getElem?_of_putName h, ?_⟩
  constructor
  · intro hcopies
    exact fitsField_of_copies fun buffer hbuffer => hcopies buffer hbuffer.ge
  · intro hfits buffer hbuffer
    exact hfits.copies hbuffer

/-- A character of two bytes lies over the end of the field: its second byte is not copied, and the
next character is put behind the field. If the buffer ends with the field there is no result. -/
theorem putName_spills :
    let name : Text := "0123456789abcdeéx"
    putName (List.replicate 20 0) name =
        some (("0123456789abcde" : Text) ++ [0xC3, 0x00, 0x78, 0x00, 0x00]) ∧
      ¬ Copies (List.replicate 20 0) name ∧
      putName (List.replicate 16 0) name = none ∧ ¬ Copies (List.replicate 16 0) name := by
  intro name
  have hbehind : putName (List.replicate 20 0) name =
      some (("0123456789abcde" : Text) ++ [0xC3, 0x00, 0x78, 0x00, 0x00]) := by
    decide +kernel
  have hnone : putName (List.replicate 16 0) name = none := by
    decide +kernel
  refine ⟨hbehind, ?_, hnone, ?_⟩
  · rintro ⟨written, hwritten, -, hcopied⟩
    cases hbehind.symm.trans hwritten
    have hkept := hcopied 17
    revert hkept
    decide +kernel
  · rintro ⟨written, hwritten, -⟩
    cases hnone.symm.trans hwritten

end ObjcLens
