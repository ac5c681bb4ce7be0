import Mathlib
import ObjcLens.Proofs.ObjcType.AllOrNothing
import ObjcLens.Proofs.ObjcType.Fields

/-!
# The text that a type takes

The reader looks ahead in all of its text: it searches for quotation marks, looks at the byte
behind them, and treats the end of the text like a byte of its own. But where it succeeds, all of
that was inside the text that the type takes. Cut off behind the type, the text stands for the same
type; and of other text that is put in its place, only the first byte matters. That byte must not go
on with the type: `isContinuedBy` lists the four ways in which it could.

## Main results

* `read_append_of_not_isContinuedBy`: a type is read in front of any text that does not go on
  with it.
* `decode_taken_alone`: decoding depends on nothing but the text that it takes.
* `IsReadBack.read_append`: a type that is read back alone is read back in front of such text.
-/

namespace ObjcLens

namespace ObjcType

/-- The byte, right behind the encoding of the type, is read as more of it: a digit goes on with
the width of a bit field, an angle bracket opens the signature of a block, and behind an object a
question mark makes a block of it and a quotation mark starts its class. -/
def isContinuedBy (t : ObjcType) (c : UInt8) : Bool :=
  t.endsInBitfield && Text.isDigit c || t.endsInBareBlock && c = byte '<' ||
    t.endsInBareObject && (c = byte '?' || c = byte '"')

/-- What does not go on with a type may follow it. -/
theorem Follows.of_not_isContinuedBy {t : ObjcType} {after : Text}
    (h : ∀ c ∈ after.head?, t.isContinuedBy c = false) : Follows false t after where
  not_digit hbits c hc := by
    have hno := h c hc
    simp only [isContinuedBy, hbits, Bool.true_and, Bool.or_eq_false_iff] at hno
    exact hno.1.1
  not_angle hblock hhead := by
    have hno := h _ hhead
    simp [isContinuedBy, hblock] at hno
  not_question hobject hhead := by
    have hno := h _ hhead
    simp [isContinuedBy, hobject] at hno
  -- at the top no members are named, so a quoted text would be a class
  not_quote hobject hhead := by
    have hno := h _ hhead
    simp [isContinuedBy, hobject] at hno
  ends_quote hnamed := by cases hnamed

/-- No comma goes on with a type. -/
theorem isContinuedBy_comma (t : ObjcType) : t.isContinuedBy (byte ',') = false := by
  have hbytes : Text.isDigit (byte ',') = false ∧ byte ',' ≠ byte '<' ∧ byte ',' ≠ byte '?' ∧
      byte ',' ≠ byte '"' := by decide
  simp [isContinuedBy, hbytes]

/-- A type that ends in front of some text ends in front of any other text that does not go on with
it. -/
theorem read_append_of_not_isContinuedBy {s before after : Text} {t : ObjcType}
    (hafter : ∀ c ∈ after.head?, t.isContinuedBy c = false)
    (h : read maxDepth false (s ++ before) = some (t, before)) :
    read maxDepth false (s ++ after) = some (t, after) := by
  have hends : EndsClass false after := fun hnamed => by cases hnamed
  exact read_append_of_follows (Follows.of_not_isContinuedBy hafter) hends (Or.inr le_rfl) h

/-- What is decoded, if it is known, has been read. -/
theorem read_of_decode {s : Text} {t : ObjcType} {rest : Text} (h : decode s = (t, rest))
    (hknown : ∀ raw, t ≠ .unknown raw) : read maxDepth false s = some (t, rest) := by
  cases hread : read maxDepth false s with
  | none =>
    rw [decode, hread, Option.getD_none] at h
    exact absurd (Prod.mk.inj h).1.symm (hknown s)
  | some p =>
    rw [decode, hread, Option.getD_some] at h
    rw [h]

/-- The text behind the type that is decoded is an end of the text. -/
theorem decode_suffix (s : Text) : (decode s).2 <:+ s := by
  rw [decode]
  cases hread : read maxDepth false s with
  | none => exact List.nil_suffix
  | some p => exact suffix_of_read hread

/-- Decoding depends on nothing but the text that it takes. That text alone is decoded to the same
type, with nothing left; and so it is in front of any text that does not go on with the type, of
which all is left. -/
theorem decode_taken_alone {s : Text} {t : ObjcType} {rest : Text} (h : decode s = (t, rest))
    (hknown : ∀ raw, t ≠ .unknown raw) :
    let taken := s.take (s.length - rest.length)
    taken ++ rest = s ∧ decode taken = (t, []) ∧
      ∀ after, (∀ c ∈ after.head?, t.isContinuedBy c = false) →
        decode (taken ++ after) = (t, after) := by
  have hread := read_of_decode h hknown
  obtain ⟨taken, rfl, -, halone⟩ := exists_taken_of_read hread
  have htake : (taken ++ rest).take ((taken ++ rest).length - rest.length) = taken := by
    rw [List.length_append, Nat.add_sub_cancel, List.take_left]
  rw [htake]
  refine ⟨rfl, ?_, ?_⟩
  · rw [decode, halone, Option.getD_some]
  · intro after hafter
    rw [← List.append_nil taken] at halone
    rw [decode, read_append_of_not_isContinuedBy hafter halone, Option.getD_some]

/-- A structure in front of the size of an argument frame. Inside it there is a comma, a quoted
class in front of the name of the next field, and an object in front of another name; the pointer
to a bit field at its end is closed by the bracket, so that the digits behind it are left. -/
theorem decode_taken_alone_sample :
    let text : Text := "r\x7bpair<Key,Row>=\"key\"@\"NSString\"\"row\"@\"bits\"^b3\x7d16@0:8"
    let t : ObjcType := .aggregate "r" .struct "pair<Key,Row>" [
      ⟨"key", .object [] "NSString" [], 0⟩, ⟨"row", .object [] [] [], 0⟩,
      ⟨"bits", .pointer [] (.bitfield [] 3), 0⟩]
    let rest : Text := "16@0:8"
    let taken := text.take (text.length - rest.length)
    let quotation : Text := "\"V_pair\""
    (decode text = (t, rest) ∧ ∀ raw, t ≠ .unknown raw) ∧
      taken ++ rest = text ∧ decode taken = (t, []) ∧
        decode (taken ++ quotation) = (t, quotation) := by
  intro text t rest taken quotation
  have hdecode : decode text = (t, rest) := rfl
  have hknown : ∀ raw, t ≠ .unknown raw := fun raw => by simp [t]
  have hquote : ∀ c ∈ quotation.head?, t.isContinuedBy c = false := by decide +kernel
  obtain ⟨hall, halone, hbehind⟩ := decode_taken_alone hdecode hknown
  exact ⟨⟨hdecode, hknown⟩, hall, halone, hbehind quotation hquote⟩

/-- The type is known, and its encoding is decoded to it. -/
structure IsReadBack (t : ObjcType) : Prop where
  known : ∀ raw, t ≠ .unknown raw
  parse_encode : parse t.encode = t

/-- A canonical type of no more than the allowed height is read back. -/
theorem IsReadBack.of_isCanonical {t : ObjcType} (hcanonical : t.isCanonical = true)
    (hheight : t.height ≤ maxDepth) : IsReadBack t where
  known raw hraw := by simp [hraw, isCanonical] at hcanonical
  parse_encode := by
    have hread := read_encode_of_isCanonical hcanonical hheight
    simp only [parse, decode, hread, Option.getD_some]

/-- A type that is read back alone is read back in front of text that does not go on with it. -/
theorem IsReadBack.read_append {t : ObjcType} (h : IsReadBack t) {after : Text}
    (hafter : ∀ c ∈ after.head?, t.isContinuedBy c = false) :
    read maxDepth false (t.encode ++ after) = some (t, after) := by
  have halone := read_of_parse_eq h.known h.parse_encode
  rw [← List.append_nil t.encode] at halone
  exact read_append_of_not_isContinuedBy hafter halone

/-- The encoding of a type that is read back starts like a type. -/
theorem IsReadBack.encode_eq_cons {t : ObjcType} (h : IsReadBack t) :
    ∃ c tail, t.encode = c :: tail ∧ startsType c = true :=
  startsType_of_read (read_of_parse_eq h.known h.parse_encode)

end ObjcType

end ObjcLens
