import Mathlib
import ObjcLens.Proofs.ObjcType.Comma
import ObjcLens.Proofs.Property.Entry

/-!
# What follows the type of a property

The type of a property may have commas in its names, so that the first comma behind the letter `T`
need not be the end of the entry. The reader trusts the reader of types: if a type ends at a comma
or at the end of the text, so does the entry, and all commas in front of that belong to the type. If
a type ends anywhere else, the entry is no type, and the text is read on at the first comma. No
other entry depends on the type, so that all of them are read as if the text started there. Text at
whose front there is no type at all is taken whole, and no other entry is read.

## Main results

* `withoutType_readFrom`: entries do not depend on a type that was read before them.
* `readFrom_eq_of_length_le`: the bound on the number of entries makes no difference.
* `withoutType_parse_cons`: behind the type of a property, attributes are read as if there were no
  type.
* `withoutType_parse_type`: the attributes behind a type, by how the type ends.
* `parse_of_read_eq_none`: what is read of text without a type at its front.
-/

namespace ObjcLens

namespace PropertyAttributes

open ObjcType

/-- The attributes without the type and its text. -/
def withoutType (attrs : PropertyAttributes) : PropertyAttributes :=
  { attrs with type := none, typeEncoding := [] }

/-- Setting an attribute and leaving out the type can be done in either order. -/
theorem withoutType_set (attrs : PropertyAttributes) (code : UInt8) (value : Text) :
    (attrs.set code value).withoutType = attrs.withoutType.set code value := by
  simp [withoutType, set_eq]

/-- Entries do not depend on a type that was read before them. -/
theorem withoutType_readFrom (fuel : Nat) {attrs other : PropertyAttributes}
    (h : attrs.withoutType = other.withoutType) (s : Text) :
    (readFrom fuel attrs s).withoutType = (readFrom fuel other s).withoutType := by
  induction fuel generalizing attrs other s with
  | zero => exact h
  | succ fuel ih =>
    cases s with
    | nil => exact h
    | cons code s =>
      by_cases hcode : code = byte 'T'
      · -- the type is overwritten on both sides, and what is read next does not depend on it
        rw [hcode, readFrom_type, readFrom_type]
        refine ih ?_ _
        exact h
      · rw [readFrom_other fuel attrs hcode, readFrom_other fuel other hcode]
        refine ih ?_ _
        rw [withoutType_set, withoutType_set, h]

/-- What is left behind a type is the end of the text. -/
theorem readType_suffix (s : Text) : (readType s).2 <:+ s := by
  by_cases h : EndsEntry (decode s).2
  · rw [readType_of_endsEntry rfl h]
    exact decode_suffix s
  · rw [readType_of_not_endsEntry rfl h]
    exact List.dropWhile_suffix _

/-- There are not more entries than bytes, so that the bound on their number makes no
difference. -/
theorem readFrom_eq_of_length_le {fuel fuel' : Nat} (attrs : PropertyAttributes) {s : Text}
    (hfuel : s.length ≤ fuel) (hfuel' : s.length ≤ fuel') :
    readFrom fuel attrs s = readFrom fuel' attrs s := by
  induction fuel generalizing fuel' attrs s with
  | zero =>
    obtain rfl : s = [] := List.length_eq_zero_iff.1 (Nat.le_zero.1 hfuel)
    cases fuel' <;> rfl
  | succ fuel ih =>
    cases s with
    | nil => cases fuel' <;> rfl
    | cons code s =>
      rw [List.length_cons] at hfuel hfuel'
      obtain ⟨fuel', rfl⟩ : ∃ n, fuel' = n + 1 := ⟨fuel' - 1, by omega⟩
      -- what is behind an entry is shorter than the text with the entry
      have hshorter {rest : Text} (hrest : rest <:+ s) :
          (Text.dropLeading "," rest).length ≤ s.length :=
        ((Text.dropLeading_suffix "," rest).trans hrest).length_le
      by_cases hcode : code = byte 'T'
      · have hlength := hshorter (readType_suffix s)
        rw [hcode, readFrom_type, readFrom_type]
        exact ih _ (by omega) (by omega)
      · have hlength := hshorter (List.dropWhile_suffix (· != byte ',') (l := s))
        rw [readFrom_other fuel attrs hcode, readFrom_other fuel' attrs hcode]
        exact ih _ (by omega) (by omega)

/-- Behind the type of a property, attributes are read as if there were no type. -/
theorem withoutType_parse_cons (s : Text) :
    (parse (byte 'T' :: s)).withoutType =
      (parse (Text.dropLeading "," (readType s).2)).withoutType := by
  have hlength : (Text.dropLeading "," (readType s).2).length ≤ s.length :=
    ((Text.dropLeading_suffix "," _).trans (readType_suffix s)).length_le
  -- the number of entries was bounded by the whole text, which is more than enough for the rest
  rw [parse, parse, List.length_cons, readFrom_type, readFrom_eq_of_length_le _ hlength le_rfl]
  refine withoutType_readFrom _ ?_ _
  rfl

/-- Text at whose front no type can be read is taken whole: it is the text of a type that is not
known, and what looks like entries behind it is lost. -/
theorem parse_of_read_eq_none {s : Text} (hread : read maxDepth false s = none) :
    parse (byte 'T' :: s) = { type := some (.unknown s), typeEncoding := s } := by
  have hdecode : decode s = (.unknown s, []) := by
    rw [decode, hread]
    rfl
  have htype : readType s = ((.unknown s, s), []) := by
    simp [readType, hdecode]
  rw [parse, List.length_cons, readFrom_type, htype]
  cases s.length <;> rfl

example : parse "T,N,V_x" = { type := some (.unknown ",N,V_x"), typeEncoding := ",N,V_x" } :=
  parse_of_read_eq_none rfl

/-- The attributes behind a type, in text that has its first comma behind `t`. If `t` alone is the
type, or if the type that is read ends neither at a comma nor at the end of the text, they are those
of the text behind the first comma. If the type ends at a later comma or at the end of the text, the
first comma is part of it, and they are those of the text behind the type. -/
theorem withoutType_parse_type {t rest behind : Text} {type : ObjcType} (hcomma : byte ',' ∉ t)
    (hread : read maxDepth false (t ++ byte ',' :: rest) = some (type, behind)) :
    (read maxDepth false t = some (type, []) ∨ ¬ EndsEntry behind →
        (parse (byte 'T' :: (t ++ byte ',' :: rest))).withoutType = (parse rest).withoutType) ∧
      (EndsEntry behind →
        (parse (byte 'T' :: (t ++ byte ',' :: rest))).withoutType =
          (parse (Text.dropLeading "," behind)).withoutType) := by
  have hdecode : decode (t ++ byte ',' :: rest) = (type, behind) := by
    rw [decode, hread, Option.getD_some]
  have hclean (hends : EndsEntry behind) :
      (parse (byte 'T' :: (t ++ byte ',' :: rest))).withoutType =
        (parse (Text.dropLeading "," behind)).withoutType := by
    rw [withoutType_parse_cons, readType_of_endsEntry hdecode hends]
  refine ⟨?_, hclean⟩
  rintro (halone | hends)
  · -- a comma makes no difference to the type in front of it
    have hfront := (read_append_comma t rest type).2 halone
    obtain rfl : behind = byte ',' :: rest := by
      rw [hread] at hfront
      exact (Prod.mk.inj (Option.some.inj hfront)).2
    rw [hclean (EndsEntry.comma rest), Text.dropLeading_comma]
  · -- the type is given up, and its text ends at the first comma, which is the one behind `t`
    obtain ⟨-, hdrop⟩ := takeWhile_append_of_not_mem hcomma (EndsEntry.comma rest)
    rw [withoutType_parse_cons, readType_of_not_endsEntry hdecode hends, hdrop,
      Text.dropLeading_comma]

/-- A structure of a template with text behind it that belongs to no type. The reader of types gets
past two commas, and the text is read on at the first one. -/
theorem withoutType_parse_sampleTrailing :
    let t : Text := "^\x7bmap<Key"
    let rest : Text := "Row,less>=\"row\"@\"NSArray\"\x7d!,R,N,GisSealed,V_map"
    let behind : Text := "!,R,N,GisSealed,V_map"
    let type : ObjcType := .pointer [] (.aggregate [] .struct "map<Key,Row,less>" [
      ⟨"row", .object [] "NSArray" [], 0⟩])
    (byte ',' ∉ t ∧ read maxDepth false (t ++ byte ',' :: rest) = some (type, behind) ∧
        ¬ EndsEntry behind) ∧
      (parse (byte 'T' :: (t ++ byte ',' :: rest))).withoutType =
        { readOnly := true, nonatomic := true, getter := "isSealed", ivar := "_map" } := by
  intro t rest behind type
  have hcomma : byte ',' ∉ t := by decide +kernel
  have hread : read maxDepth false (t ++ byte ',' :: rest) = some (type, behind) := rfl
  -- the type is read past the comma inside it, up to a mark that no entry may have there
  have hends : ¬ EndsEntry behind := fun h => absurd (h _ rfl) (by decide +kernel)
  refine ⟨⟨hcomma, hread, hends⟩, ?_⟩
  rw [(withoutType_parse_type hcomma hread).1 (.inr hends)]
  rfl

/-- Text in front of a comma need not be the type. The name of a template goes on behind its first
comma, with the letter of an attribute. -/
theorem withoutType_parse_templateName_ne :
    ¬ ∀ t rest : Text, byte ',' ∉ t →
      (∀ entry ∈ Text.splitOn (byte ',') rest, entry.head? ≠ some (byte 'T')) →
        (parse (byte 'T' :: (t ++ byte ',' :: rest))).withoutType = (parse rest).withoutType := by
  intro h
  have hsame := h "\x7bmap<Key" "Row>=^Q\x7d,N" (by decide +kernel) (by decide +kernel)
  exact absurd (congrArg readOnly hsame) (by decide +kernel)

end PropertyAttributes

end ObjcLens
