import Mathlib
import ObjcLens.Proofs.ObjcType.Taken

/-!
# Method signatures are read back

A method signature is a run of types and numbers without separators: the result type and the size of
the argument frame, then for each parameter its type and its offset, which may be negative and may
have a plus sign in front that marks a parameter passed in a register. The reader of types has to
stop where a number starts, and the reader of numbers where a type starts. Only a bit field goes on
with a digit behind it, so that every other type that is read back alone is read back here.

## Main results

* `read_append_number`: a type is read in front of a number.
* `readParams_flatMap`: any number of parameters is read back.
* `decode_signature`: a method signature is read back.
-/

namespace ObjcLens

namespace MethodType

open ObjcType

/-- The type may stand in front of a number: it is read back, and it is neither a bit field nor a
chain of pointers to one. -/
structure IsArgument (t : ObjcType) : Prop extends IsReadBack t where
  not_bits : t.endsInBitfield = false

/-- A canonical type may stand in front of an offset, unless it ends in a bit-field. -/
theorem IsArgument.of_isCanonical {t : ObjcType} (hcanonical : t.isCanonical = true)
    (hheight : t.height ≤ maxDepth) (hbits : t.endsInBitfield = false) : IsArgument t where
  toIsReadBack := IsReadBack.of_isCanonical hcanonical hheight
  not_bits := hbits

/-- The byte starts a number, or the mark in front of one. -/
def startsNumber (c : UInt8) : Bool := Text.isDigit c || c = byte '+' || c = byte '-'

/-- Of all types only bit fields go on with a number. -/
theorem isContinuedBy_of_startsNumber {t : ObjcType} (hbits : t.endsInBitfield = false) {c : UInt8}
    (hc : startsNumber c = true) : t.isContinuedBy c = false := by
  have hmark : c ≠ byte '<' ∧ c ≠ byte '?' ∧ c ≠ byte '"' := by
    refine ⟨?_, ?_, ?_⟩
    all_goals
      rintro rfl
      exact absurd hc (by decide)
  simp [isContinuedBy, hbits, hmark]

/-- A type is read up to the number behind it. -/
theorem read_append_number {t : ObjcType} (h : IsArgument t) {c : UInt8}
    (hc : startsNumber c = true) (tail : Text) :
    read maxDepth false (t.encode ++ c :: tail) = some (t, c :: tail) := by
  refine h.read_append fun d hd => ?_
  obtain rfl : c = d := by simpa using hd
  exact isContinuedBy_of_startsNumber h.not_bits hc

/-- A parameter as it is written. -/
structure MarkedParam extends Param where
  /-- The parameter is marked as passed in a register. -/
  marked : Bool

/-- The text of an offset, with the mark in front of it if there is one. -/
def encodeOffset (marked : Bool) (offset : Int) : Text :=
  (if marked then [byte '+'] else []) ++ Text.decInt offset

/-- The text of a parameter: its type and its offset. -/
def encodeParam (p : MarkedParam) : Text := p.type.encode ++ encodeOffset p.marked p.offset

/-- A parameter that is read back: its type may stand in front of a number, and its offset fits. -/
structure IsParam (p : MarkedParam) : Prop where
  type : IsArgument p.type
  offset_lt : p.offset.natAbs < 2 ^ 63

/-- A parameter starts with its type, so that no digit of it goes on with a number. -/
theorem encodeParam_eq_cons {p : MarkedParam} (h : IsParam p) :
    ∃ c tail, encodeParam p = c :: tail ∧ Text.isDigit c = false := by
  obtain ⟨c, tail, hencode, hc⟩ := h.type.encode_eq_cons
  exact ⟨c, _, by rw [encodeParam, hencode]; rfl, (startsType_spec c hc).1⟩

/-- Parameters do not begin with a digit, so that the size in front of them ends. -/
theorem startsNot_isDigit_params {params : List MarkedParam} (h : ∀ p ∈ params, IsParam p) :
    StartsNot Text.isDigit (params.flatMap encodeParam) := by
  cases params with
  | nil => exact StartsNot.nil _
  | cons p later =>
    obtain ⟨c, tail, hencode, hc⟩ := encodeParam_eq_cons (h p List.mem_cons_self)
    rw [List.flatMap_cons, hencode]
    exact StartsNot.cons hc _

/-- An offset starts with a digit, or with the mark or the sign in front of one. -/
theorem encodeOffset_eq_cons (marked : Bool) (offset : Int) :
    ∃ c tail, encodeOffset marked offset = c :: tail ∧ startsNumber c = true := by
  cases marked with
  | true => exact ⟨byte '+', Text.decInt offset, rfl, by decide⟩
  | false =>
    obtain ⟨c, tail, hdec, hc⟩ := decInt_eq_cons offset
    refine ⟨c, tail, hdec, ?_⟩
    rcases hc with hdigit | rfl
    · simp [startsNumber, hdigit]
    · decide

/-- The mark in front of an offset is dropped, and the offset is read back. -/
theorem readSigned_encodeOffset (marked : Bool) {offset : Int} (hoffset : offset.natAbs < 2 ^ 63)
    {later : Text} (hlater : StartsNot Text.isDigit later) :
    readSigned (Text.dropLeading "+" (encodeOffset marked offset ++ later)) = (offset, later) := by
  have hplus : Text.ofString "+" = [byte '+'] := by decide
  have hdrop : Text.dropLeading "+" (encodeOffset marked offset ++ later) =
      Text.decInt offset ++ later := by
    cases marked with
    | true => simp [encodeOffset, Text.dropLeading, hplus]
    | false =>
      -- an offset without a mark starts with no plus sign
      obtain ⟨c, tail, hdec, hc⟩ := decInt_eq_cons offset
      have hne : (byte '+' == c) = false := by
        rw [beq_eq_false_iff_ne]
        rintro rfl
        revert hc
        decide
      simp [encodeOffset, Text.dropLeading, hplus, hdec, List.isPrefixOf, hne]
  rw [hdrop, readSigned_decInt hoffset hlater]

/-- Where a type is read, it is the type of the first parameter. -/
theorem readParams_succ {s rest : Text} {t : ObjcType}
    (h : read maxDepth false s = some (t, rest)) (fuel : Nat) :
    let offset := readSigned (Text.dropLeading "+" rest)
    readParams (fuel + 1) s = ⟨t, offset.1⟩ :: readParams fuel offset.2 := by
  cases s with
  | nil => cases h
  | cons c s =>
    rw [readParams, h]
    exact List.cons_ne_nil c s

/-- One parameter is read in front of those behind it. -/
theorem readParams_encodeParam {p : MarkedParam} (h : IsParam p) (fuel : Nat) {later : Text}
    (hlater : StartsNot Text.isDigit later) :
    readParams (fuel + 1) (encodeParam p ++ later) = p.toParam :: readParams fuel later := by
  obtain ⟨c, tail, htail, hc⟩ := encodeOffset_eq_cons p.marked p.offset
  have htype : read maxDepth false (encodeParam p ++ later) =
      some (p.type, encodeOffset p.marked p.offset ++ later) := by
    rw [encodeParam, List.append_assoc, htail]
    exact read_append_number h.type hc (tail ++ later)
  have hoffset := readSigned_encodeOffset p.marked h.offset_lt hlater
  rw [readParams_succ htype fuel, hoffset]

/-- Parameters are read back, however many there are. -/
theorem readParams_flatMap {params : List MarkedParam} (h : ∀ p ∈ params, IsParam p) {fuel : Nat}
    (hfuel : (params.flatMap encodeParam).length ≤ fuel) :
    readParams fuel (params.flatMap encodeParam) = params.map (·.toParam) := by
  induction params generalizing fuel with
  | nil => cases fuel <;> rfl
  | cons p later ih =>
    rw [List.forall_mem_cons] at h
    -- a parameter has at least one byte, so that the bound is never used up
    obtain ⟨c, tail, hencode, -⟩ := encodeParam_eq_cons h.1
    rw [List.flatMap_cons] at hfuel ⊢
    have hlonger : (later.flatMap encodeParam).length < fuel := by
      rw [hencode, List.length_append, List.length_cons] at hfuel
      omega
    obtain ⟨fuel, rfl⟩ : ∃ n, fuel = n + 1 := ⟨fuel - 1, by omega⟩
    rw [readParams_encodeParam h.1 fuel (startsNot_isDigit_params h.2),
      ih h.2 (Nat.le_of_lt_succ hlonger), List.map_cons]

/-- A method signature is read back: the result type, the size of the argument frame, and the
parameters with their offsets, in order. -/
theorem decode_signature {result : ObjcType} (hresult : IsArgument result) {stackSize : Nat}
    (hsize : stackSize < 2 ^ 63) {params : List MarkedParam} (hparams : ∀ p ∈ params, IsParam p) :
    decode (result.encode ++ Text.dec stackSize ++ params.flatMap encodeParam) =
      ⟨result, params.map (·.toParam), stackSize⟩ := by
  -- the result type ends at the first digit of the size, and the size where a parameter starts
  obtain ⟨d, digits, hdec, hd⟩ := dec_eq_cons stackSize
  have hstart : startsNumber d = true := by simp [startsNumber, hd]
  have htype := read_append_number hresult hstart (digits ++ params.flatMap encodeParam)
  have hnumber := readNumber_dec hsize (startsNot_isDigit_params hparams)
  rw [← List.cons_append, ← hdec, ← List.append_assoc] at htype
  rw [decode, htype]
  simp only [hnumber, Option.getD_some, readParams_flatMap hparams le_rfl]

/-- The signature of a method with a structure as its result: the receiver and the selector, an
object of a class passed in a register, a pointer to an object in front of a negative offset, and
a block. -/
theorem decode_sampleSignature :
    let result : ObjcType := .aggregate [] .struct "pair<Key,Row>" [
      ⟨[], .primitive [] (byte 'd'), 0⟩, ⟨[], .bitfield [] 3, 0⟩]
    let params : List MarkedParam := [
      ⟨⟨.object [] [] [], 0⟩, false⟩, ⟨⟨.selector [], 8⟩, false⟩,
      ⟨⟨.object "n" "NSString" ["Copying"], 16⟩, true⟩,
      ⟨⟨.pointer [] (.object [] [] []), -24⟩, false⟩, ⟨⟨.block [], 9223372036854775807⟩, true⟩]
    (IsArgument result ∧ 40 < 2 ^ 63 ∧ ∀ p ∈ params, IsParam p) ∧
    result.encode ++ Text.dec 40 ++ params.flatMap encodeParam = Text.ofString
      "\x7bpair<Key,Row>=db3\x7d40@0:8n@\"NSString<Copying>\"+16^@-24@?+9223372036854775807" ∧
    decode (result.encode ++ Text.dec 40 ++ params.flatMap encodeParam) =
      ⟨result, params.map (·.toParam), 40⟩ := by
  intro result params
  have hresult : IsArgument result :=
    .of_isCanonical (by decide +kernel) (by decide +kernel) (by decide +kernel)
  -- everything that is asked of the parameters can be computed, so it is computed at once
  have hall : ∀ p ∈ params, p.type.isCanonical = true ∧ p.type.height ≤ maxDepth ∧
      p.type.endsInBitfield = false ∧ p.offset.natAbs < 2 ^ 63 := by decide +kernel
  have hparams : ∀ p ∈ params, IsParam p := by
    intro p hp
    obtain ⟨hcanonical, hheight, hbits, hoffset⟩ := hall p hp
    exact ⟨.of_isCanonical hcanonical hheight hbits, hoffset⟩
  have hsize : 40 < 2 ^ 63 := by decide
  exact ⟨⟨hresult, hsize, hparams⟩, by decide +kernel, decode_signature hresult hsize hparams⟩

end MethodType

end ObjcLens
