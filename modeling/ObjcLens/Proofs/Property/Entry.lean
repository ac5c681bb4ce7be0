import Mathlib
import ObjcLens.Proofs.ObjcType.Taken
import ObjcLens.Property.Attributes

/-!
# Entries of property attributes

The attributes of a property are entries, each a letter and a value, with commas between them. The
value of the entry `T` is a type, which may have commas of its own, so that the reader of types has
to tell where this entry ends; every other entry ends at the next comma. Where the type stands in
the list makes no difference, because a comma goes on with no type.

## Main results

* `readFrom_text`: one entry is read in front of the next one.
* `set_eq`: what an entry other than the type changes.
* `foldl_add`: entries with different letters change different attributes.
* `parse_joinWith_text`: attributes are read as they were written, in any order.
-/

namespace ObjcLens

namespace Text

theorem dropLeading_suffix (lead s : Text) : dropLeading lead s <:+ s := by
  rw [dropLeading]
  split
  · exact List.drop_suffix _ s
  · exact List.suffix_rfl

theorem dropLeading_comma (s : Text) : dropLeading "," (byte ',' :: s) = s := by
  have hcomma : Text.ofString "," = [byte ','] := by decide
  simp [dropLeading, hcomma]

end Text

namespace PropertyAttributes

open ObjcType

/-- An entry ends in front of the text: there is a comma or nothing more. -/
def EndsEntry (s : Text) : Prop := StartsNot (· != byte ',') s

theorem EndsEntry.comma (s : Text) : EndsEntry (byte ',' :: s) :=
  StartsNot.cons (by decide) s

/-- No type goes on behind its entry. -/
theorem EndsEntry.not_isContinuedBy {s : Text} (h : EndsEntry s) (t : ObjcType) :
    ∀ c ∈ s.head?, t.isContinuedBy c = false := by
  intro c hc
  obtain rfl : c = byte ',' := by simpa using h c hc
  exact isContinuedBy_comma t

/-- An entry ends at the end of the text or at a comma. -/
private theorem endsEntry_iff (s : Text) :
    EndsEntry s ↔ (s.isEmpty || s.head? = some (byte ',')) = true := by
  cases s with
  | nil => exact iff_of_true (StartsNot.nil _) rfl
  | cons c s => simp [EndsEntry, StartsNot]

/-- A type that ends where an entry may end is the type of the entry. -/
theorem readType_of_endsEntry {s rest : Text} {t : ObjcType} (hdecode : decode s = (t, rest))
    (hrest : EndsEntry rest) : readType s = ((t, s.take (s.length - rest.length)), rest) := by
  rw [readType, hdecode]
  exact if_pos ((endsEntry_iff rest).1 hrest)

/-- Where a type ends at anything else, the entry is no type, and ends at the first comma. -/
theorem readType_of_not_endsEntry {s rest : Text} {t : ObjcType} (hdecode : decode s = (t, rest))
    (hrest : ¬ EndsEntry rest) :
    readType s = ((.unknown (s.takeWhile (· != byte ',')), s.takeWhile (· != byte ',')),
      s.dropWhile (· != byte ',')) := by
  rw [readType, hdecode]
  exact if_neg (mt (endsEntry_iff rest).2 hrest)

/-- The entry `T` is read by the reader of types. -/
theorem readFrom_type (fuel : Nat) (attrs : PropertyAttributes) (s : Text) :
    readFrom (fuel + 1) attrs (byte 'T' :: s) =
      readFrom fuel { attrs with type := some (readType s).1.1, typeEncoding := (readType s).1.2 }
        (Text.dropLeading "," (readType s).2) := by
  rw [readFrom, if_pos rfl]

/-- Any other entry is read up to the next comma. -/
theorem readFrom_other (fuel : Nat) (attrs : PropertyAttributes) {code : UInt8}
    (hcode : code ≠ byte 'T') (s : Text) :
    readFrom (fuel + 1) attrs (code :: s) =
      readFrom fuel (attrs.set code (s.takeWhile (· != byte ',')))
        (Text.dropLeading "," (s.dropWhile (· != byte ','))) := by
  rw [readFrom, if_neg hcode]

/-- An entry: the type of the property, or a letter with a value. -/
inductive Entry where
  | type (t : ObjcType)
  | other (code : UInt8) (value : Text)

namespace Entry

/-- The letter of an entry. -/
def code : Entry → UInt8
  | .type _ => byte 'T'
  | .other code _ => code

/-- The text behind the letter. -/
def value : Entry → Text
  | .type t => t.encode
  | .other _ value => value

/-- The text of an entry. -/
def text (e : Entry) : Text := e.code :: e.value

/-- The type that an entry tells. -/
def type? : Entry → Option ObjcType
  | .type t => some t
  | .other _ _ => none

@[simp] theorem code_type (t : ObjcType) : (type t).code = byte 'T' := rfl

@[simp] theorem code_other (code : UInt8) (value : Text) : (other code value).code = code := rfl

@[simp] theorem value_type (t : ObjcType) : (type t).value = t.encode := rfl

@[simp] theorem value_other (code : UInt8) (value : Text) : (other code value).value = value := rfl

@[simp] theorem type?_type (t : ObjcType) : (type t).type? = some t := rfl

/-- The type is one that is read back, and any other value has no comma. -/
def IsRegular : Entry → Prop
  | .type t => IsReadBack t
  | .other code value => code ≠ byte 'T' ∧ byte ',' ∉ value

end Entry

/-- The attributes with those of an entry. -/
def add (attrs : PropertyAttributes) : Entry → PropertyAttributes
  | .type t => { attrs with type := some t, typeEncoding := t.encode }
  | .other code value => attrs.set code value

/-- An entry is read in front of the comma behind it, or at the end of the text. -/
theorem readFrom_text {e : Entry} (h : e.IsRegular) (fuel : Nat) (attrs : PropertyAttributes)
    {rest : Text} (hrest : EndsEntry rest) :
    readFrom (fuel + 1) attrs (e.text ++ rest) =
      readFrom fuel (attrs.add e) (Text.dropLeading "," rest) := by
  cases e with
  | type t =>
    -- whatever ends the entry goes on with no type, so the type is read to its end
    have hdecode : decode (t.encode ++ rest) = (t, rest) := by
      rw [decode, h.read_append (hrest.not_isContinuedBy t), Option.getD_some]
    have htype := readType_of_endsEntry hdecode hrest
    rw [List.length_append, Nat.add_sub_cancel, List.take_left] at htype
    rw [Entry.text, List.cons_append]
    change readFrom (fuel + 1) attrs (byte 'T' :: (t.encode ++ rest)) = _
    rw [readFrom_type, htype]
    rfl
  | other code value =>
    obtain ⟨htake, hdrop⟩ := takeWhile_append_of_not_mem h.2 hrest
    rw [Entry.text, List.cons_append]
    change readFrom (fuel + 1) attrs (code :: (value ++ rest)) = _
    rw [readFrom_other fuel attrs h.1, htake, hdrop]
    rfl

/-- Entries are read one after the other, however many there are. -/
theorem readFrom_joinWith {entries : List Entry} (h : ∀ e ∈ entries, e.IsRegular) {fuel : Nat}
    (attrs : PropertyAttributes)
    (hfuel : (Text.joinWith "," (entries.map Entry.text)).length ≤ fuel) :
    readFrom fuel attrs (Text.joinWith "," (entries.map Entry.text)) =
      entries.foldl add attrs := by
  have hcomma : Text.ofString "," = [byte ','] := by decide
  induction entries generalizing fuel attrs with
  | nil => cases fuel <;> rfl
  | cons e later ih =>
    rw [List.forall_mem_cons] at h
    obtain ⟨rest, hrest, htext, hdrop⟩ : ∃ rest, EndsEntry rest ∧
        Text.joinWith "," ((e :: later).map Entry.text) = e.text ++ rest ∧
        Text.dropLeading "," rest = Text.joinWith "," (later.map Entry.text) := by
      cases later with
      | nil => exact ⟨[], StartsNot.nil _, by simp [Text.joinWith], by decide⟩
      | cons e' later =>
        refine ⟨byte ',' :: Text.joinWith "," ((e' :: later).map Entry.text),
          EndsEntry.comma _, ?_, Text.dropLeading_comma _⟩
        simp [Text.joinWith, hcomma]
    have hshorter := (Text.dropLeading_suffix "," rest).length_le
    rw [htext] at hfuel ⊢
    rw [Entry.text, List.cons_append, List.length_cons, List.length_append] at hfuel
    obtain ⟨fuel, rfl⟩ : ∃ n, fuel = n + 1 := ⟨fuel - 1, by omega⟩
    rw [readFrom_text h.1 fuel attrs hrest, hdrop, List.foldl_cons]
    rw [hdrop] at hshorter
    exact ih h.2 (attrs.add e) (by omega)

/-- A letter is known by its byte. -/
private theorem eq_byte_of_ofUInt8 {code : UInt8} {c : Char} (h : Char.ofUInt8 code = c) :
    code = byte c := by
  rw [← h]
  simp [byte, Char.ofUInt8, Char.toUInt8]

/-- An entry other than the type changes the attribute of its letter, if there is one. -/
theorem set_eq (attrs : PropertyAttributes) (code : UInt8) (value : Text) :
    attrs.set code value = { attrs with
      readOnly := attrs.readOnly || code == byte 'R'
      copy := attrs.copy || code == byte 'C'
      retain := attrs.retain || code == byte '&'
      nonatomic := attrs.nonatomic || code == byte 'N'
      dynamic := attrs.dynamic || code == byte 'D'
      weak := attrs.weak || code == byte 'W'
      collectable := attrs.collectable || code == byte 'P'
      getter := if code == byte 'G' then value else attrs.getter
      setter := if code == byte 'S' then value else attrs.setter
      ivar := if code == byte 'V' then value else attrs.ivar } := by
  unfold set
  split
  case h_11 =>
    -- the byte of a letter would be read as that letter
    have hno (c : Char) (hc : Char.ofUInt8 (byte c) = c) (hcode : Char.ofUInt8 code = c → False) :
        (code == byte c) = false := by
      rw [beq_eq_false_iff_ne]
      rintro rfl
      exact hcode hc
    rename_i hR hC hAmp hN hD hW hP hG hS hV
    simp [hno 'R' (by decide) hR, hno 'C' (by decide) hC, hno '&' (by decide) hAmp,
      hno 'N' (by decide) hN, hno 'D' (by decide) hD, hno 'W' (by decide) hW,
      hno 'P' (by decide) hP, hno 'G' (by decide) hG, hno 'S' (by decide) hS,
      hno 'V' (by decide) hV]
  all_goals
    rename_i hcode
    obtain rfl := eq_byte_of_ofUInt8 hcode
    simp +decide

/-- The first entry with a letter. -/
def findEntry (letter : Char) (entries : List Entry) : Option Entry :=
  entries.find? (·.code == byte letter)

/-- The value of the first entry with a letter, or what holds without such an entry. -/
def valueOr (letter : Char) (entries : List Entry) (value : Text) : Text :=
  ((findEntry letter entries).map Entry.value).getD value

/-- There is an entry with a letter. -/
def hasEntry (letter : Char) (entries : List Entry) : Bool :=
  entries.any (·.code == byte letter)

/-- The attributes that entries tell, looked up by their letters; what no entry tells is taken from
other attributes. -/
def withEntries (attrs : PropertyAttributes) (entries : List Entry) : PropertyAttributes where
  type := ((findEntry 'T' entries).bind Entry.type?).or attrs.type
  typeEncoding := valueOr 'T' entries attrs.typeEncoding
  readOnly := attrs.readOnly || hasEntry 'R' entries
  copy := attrs.copy || hasEntry 'C' entries
  retain := attrs.retain || hasEntry '&' entries
  nonatomic := attrs.nonatomic || hasEntry 'N' entries
  dynamic := attrs.dynamic || hasEntry 'D' entries
  weak := attrs.weak || hasEntry 'W' entries
  collectable := attrs.collectable || hasEntry 'P' entries
  getter := valueOr 'G' entries attrs.getter
  setter := valueOr 'S' entries attrs.setter
  ivar := valueOr 'V' entries attrs.ivar

/-- The first entry of a code is the one that is found. -/
theorem findEntry_cons (letter : Char) (e : Entry) (later : List Entry) :
    findEntry letter (e :: later) =
      if e.code == byte letter then some e else findEntry letter later := by
  rw [findEntry, List.find?_cons]
  cases e.code == byte letter <;> rfl

/-- The type entry is none of the others. -/
theorem hasEntry_type (t : ObjcType) (later : List Entry) {letter : Char}
    (h : byte 'T' ≠ byte letter) : hasEntry letter (.type t :: later) = hasEntry letter later := by
  rw [hasEntry, List.any_cons, Entry.code_type, beq_eq_false_iff_ne.2 h, Bool.false_or, hasEntry]

/-- Entries with other letters are not found. -/
theorem findEntry_eq_none {e : Entry} {later : List Entry} (h : e.code ∉ later.map Entry.code)
    {letter : Char} (hcode : (e.code == byte letter) = true) : findEntry letter later = none := by
  rw [findEntry, List.find?_eq_none]
  intro e' he' hletter
  have hsame : e'.code = e.code := by rw [eq_of_beq hcode, eq_of_beq hletter]
  exact h (List.mem_map.2 ⟨e', he', hsame⟩)

/-- Where no other entry has its letter, an entry tells what holds without the entries behind
it. -/
theorem valueOr_cons {e : Entry} {later : List Entry} (h : e.code ∉ later.map Entry.code)
    (letter : Char) (value : Text) :
    valueOr letter (e :: later) value =
      valueOr letter later (if e.code == byte letter then e.value else value) := by
  rw [valueOr, valueOr, findEntry_cons]
  cases hcode : e.code == byte letter with
  | true =>
    rw [findEntry_eq_none h hcode]
    rfl
  | false => rfl

/-- Entries with different letters change different attributes, so that what they tell together is
looked up in any order. -/
theorem foldl_add {entries : List Entry} (h : ∀ e ∈ entries, e.IsRegular)
    (hletters : (entries.map Entry.code).Nodup) (attrs : PropertyAttributes) :
    entries.foldl add attrs = attrs.withEntries entries := by
  induction entries generalizing attrs with
  | nil => simp [withEntries, findEntry, valueOr, hasEntry]
  | cons e later ih =>
    rw [List.forall_mem_cons] at h
    rw [List.map_cons, List.nodup_cons] at hletters
    rw [List.foldl_cons, ih h.2 hletters.2]
    have hvalue := valueOr_cons hletters.1
    cases e with
    | type t =>
      have hnone : findEntry 'T' later = none := findEntry_eq_none hletters.1 rfl
      have hother : byte 'T' ∉ [byte 'R', byte 'C', byte '&', byte 'N', byte 'D', byte 'W',
          byte 'P', byte 'G', byte 'S', byte 'V'] := by decide
      simp only [List.mem_cons, not_or] at hother
      simp [withEntries, add, hvalue, hnone, hother, findEntry_cons, hasEntry_type]
    | other code value =>
      have hcode : (code == byte 'T') = false := beq_eq_false_iff_ne.2 h.1.1
      simp [withEntries, add, set_eq, hvalue, findEntry_cons, hcode, hasEntry, Bool.or_assoc]

/-- What is found has the letter. -/
theorem code_of_findEntry {letter : Char} {entries : List Entry} {e : Entry}
    (h : findEntry letter entries = some e) : e ∈ entries ∧ e.code = byte letter := by
  unfold findEntry at h
  have hcode := List.find?_some h
  exact ⟨List.mem_of_find?_eq_some h, eq_of_beq hcode⟩

/-- Where letters are different, the entry that is found is the one with the letter. -/
theorem findEntry_eq_some_iff {entries : List Entry} (hletters : (entries.map Entry.code).Nodup)
    (letter : Char) (e : Entry) :
    findEntry letter entries = some e ↔ e ∈ entries ∧ e.code = byte letter := by
  refine ⟨code_of_findEntry, ?_⟩
  rintro ⟨he, hcode⟩
  cases hfound : findEntry letter entries with
  | none => exact absurd (beq_iff_eq.2 hcode) (List.find?_eq_none.1 hfound e he)
  | some e' =>
    obtain ⟨he', hcode'⟩ := code_of_findEntry hfound
    rw [List.inj_on_of_nodup_map hletters he' he (hcode'.trans hcode.symm)]

/-- The order of entries with different letters makes no difference. -/
theorem withEntries_eq_of_perm {entries other : List Entry} (hperm : other.Perm entries)
    (hletters : (entries.map Entry.code).Nodup) (attrs : PropertyAttributes) :
    attrs.withEntries other = attrs.withEntries entries := by
  have hother : (other.map Entry.code).Nodup := (hperm.map Entry.code).nodup_iff.2 hletters
  have hentry (letter : Char) : findEntry letter other = findEntry letter entries := by
    refine Option.ext fun e => ?_
    rw [findEntry_eq_some_iff hother, findEntry_eq_some_iff hletters, hperm.mem_iff]
  have hhas (letter : Char) : hasEntry letter other = hasEntry letter entries := hperm.any_eq
  simp only [withEntries, valueOr, hentry, hhas]

/-- Attributes are read as they were written: the type and its text, a value for each of the letters
`G`, `S` and `V`, and for each other letter whether it occurs. In any other order the same entries
are read as the same attributes. -/
theorem parse_joinWith_text {entries : List Entry} (hregular : ∀ e ∈ entries, e.IsRegular)
    (hletters : (entries.map Entry.code).Nodup) :
    parse (Text.joinWith "," (entries.map Entry.text)) =
        ({} : PropertyAttributes).withEntries entries ∧
      ∀ other : List Entry, other.Perm entries →
        parse (Text.joinWith "," (other.map Entry.text)) =
          parse (Text.joinWith "," (entries.map Entry.text)) := by
  have hparse (list : List Entry) (hlist : ∀ e ∈ list, e.IsRegular)
      (hnodup : (list.map Entry.code).Nodup) :
      parse (Text.joinWith "," (list.map Entry.text)) =
        ({} : PropertyAttributes).withEntries list := by
    rw [parse, readFrom_joinWith hlist {} le_rfl, foldl_add hlist hnodup]
  -- no letter comes twice, so the entries set different fields and their order does not matter
  refine ⟨hparse entries hregular hletters, fun other hperm => ?_⟩
  rw [hparse entries hregular hletters,
    hparse other (fun e he => hregular e (hperm.mem_iff.1 he))
      ((hperm.map Entry.code).nodup_iff.2 hletters)]
  exact withEntries_eq_of_perm hperm hletters {}

/-- The type of a template with commas in its name and in the name of a field, between the setter
and the variable behind the property; a letter without a meaning is skipped. -/
theorem parse_sampleEntries :
    let t : ObjcType := .pointer "r" (.aggregate [] .struct "pair<Key,Row>" [
      ⟨"first,V_no", .object [] "NSString" [], 0⟩, ⟨"R", .primitive [] (byte 'i'), 0⟩])
    let entries : List Entry := [.other (byte '&') [], .other (byte 'S') "setPair:", .type t,
      .other (byte 'X') "none", .other (byte 'V') "_pair"]
    ((∀ e ∈ entries, e.IsRegular) ∧ (entries.map Entry.code).Nodup) ∧
    Text.joinWith "," (entries.map Entry.text) = Text.ofString
      "&,SsetPair:,Tr^\x7bpair<Key,Row>=\"first,V_no\"@\"NSString\"\"R\"i\x7d,Xnone,V_pair" ∧
    parse (Text.joinWith "," (entries.map Entry.text)) =
      { type := some t, typeEncoding := t.encode, retain := true, setter := "setPair:",
        ivar := "_pair" } := by
  intro t entries
  have htype : IsReadBack t := .of_isCanonical (by decide +kernel) (by decide +kernel)
  have hother : ∀ e ∈ entries, e.type? = none → e.code ≠ byte 'T' ∧ byte ',' ∉ e.value := by
    decide +kernel
  have hregular : ∀ e ∈ entries, e.IsRegular := by
    intro e he
    cases e with
    | type t' =>
      obtain rfl : t' = t := by simpa [entries] using he
      exact htype
    | other code value => exact hother _ he rfl
  have hletters : (entries.map Entry.code).Nodup := by decide +kernel
  refine ⟨⟨hregular, hletters⟩, by decide +kernel, ?_⟩
  rw [(parse_joinWith_text hregular hletters).1]
  rfl

end PropertyAttributes

end ObjcLens
