import Mathlib
import ObjcLens.Proofs.ObjcType.Settle
import ObjcLens.Property.Attributes

/-!
# Types in front of a comma

The attributes of a property are separated by commas, but names of aggregates may contain commas
too. A type is read in front of a comma just as it is read at the end of the text, and therefore
the type of a property is the type that its text alone is the encoding of.

## Main results

* `ObjcType.read_append_comma`: a comma behind a type makes no difference.
* `PropertyAttributes.isDecoded_parse`: the type of a property is the type of its text.
-/

namespace ObjcLens

/-- A type is read in front of a comma as at the end of the text. -/
theorem ObjcType.read_append_comma (s tail : Text) (t : ObjcType) :
    read maxDepth false (s ++ byte ',' :: tail) = some (t, byte ',' :: tail) ↔
      read maxDepth false s = some (t, []) := by
  have hcomma : Follows false t (byte ',' :: tail) :=
    Follows.of_mark (by decide) (by decide) (fun hnamed => by cases hnamed) tail
  have hends (after : Text) : EndsClass false after := fun hnamed => by cases hnamed
  constructor
  · intro h
    have hend := read_append_of_follows (Follows.nil false t) (hends []) (Or.inr le_rfl) h
    rwa [List.append_nil] at hend
  · intro h
    rw [← List.append_nil s] at h
    exact read_append_of_follows hcomma (hends _) (Or.inr le_rfl) h

/-- Where a type ends at something else than a comma, the text up to the first comma is no type. -/
theorem ObjcType.read_takeWhile_comma_ne {s : Text} {t : ObjcType} {c : UInt8} {rest : Text}
    (h : read maxDepth false s = some (t, c :: rest)) (hc : c ≠ byte ',') (t' : ObjcType) :
    read maxDepth false (s.takeWhile (· != byte ',')) ≠ some (t', []) := by
  intro htext
  have hs : s.takeWhile (· != byte ',') ++ s.dropWhile (· != byte ',') = s :=
    List.takeWhile_append_dropWhile
  cases hbehind : s.dropWhile (· != byte ',') with
  | nil =>
    rw [hbehind, List.append_nil] at hs
    rw [hs, h] at htext
    cases htext
  | cons d tail =>
    have hd : d = byte ',' := by
      have hhead := List.head?_dropWhile_not (· != byte ',') s
      simpa [hbehind] using hhead
    -- otherwise the type would have ended at the first comma
    have hall := (read_append_comma _ tail t').2 htext
    rw [hbehind, hd] at hs
    rw [hs, h] at hall
    exact hc (List.cons.inj (Prod.mk.inj (Option.some.inj hall)).2).1

namespace PropertyAttributes

/-- The type of a property is what the text that it was read from is the encoding of. -/
theorem readType_eq_parse (s : Text) : (readType s).1.1 = ObjcType.parse (readType s).1.2 := by
  cases hread : ObjcType.read ObjcType.maxDepth false s with
  | none => simp [readType, ObjcType.parse, ObjcType.decode, hread]
  | some p =>
    obtain ⟨t, _ | ⟨c, rest⟩⟩ := p
    · simp [readType, ObjcType.parse, ObjcType.decode, hread]
    · by_cases hc : c = byte ','
      · -- the type ends at a comma: it is read from its text alone
        have hsuffix : c :: rest <:+ s := ObjcType.suffix_of_read hread
        obtain ⟨text, rfl⟩ := hsuffix
        rw [hc] at hread ⊢
        have htext := (ObjcType.read_append_comma text rest t).1 hread
        simp [readType, ObjcType.parse, ObjcType.decode, hread, htext]
      · -- the text up to the comma is no type either, else it would have been read
        have hunknown : (readType s).1 =
            (.unknown (s.takeWhile (· != byte ',')), s.takeWhile (· != byte ',')) := by
          simp [readType, ObjcType.decode, hread, hc]
        rw [hunknown]
        cases htext : ObjcType.read ObjcType.maxDepth false (s.takeWhile (· != byte ',')) with
        | none => simp [ObjcType.parse, ObjcType.decode, htext]
        | some p =>
          obtain ⟨t', _ | ⟨d, rest'⟩⟩ := p
          · exact absurd htext (ObjcType.read_takeWhile_comma_ne hread hc t')
          · simp [ObjcType.parse, ObjcType.decode, htext]

/-- There is no type, or the type is what its text is the encoding of. -/
def IsDecoded (attrs : PropertyAttributes) : Prop :=
  attrs.type = none ∧ attrs.typeEncoding = [] ∨
    attrs.type = some (ObjcType.parse attrs.typeEncoding)

/-- An entry that is not the type leaves the type alone. -/
private theorem IsDecoded.set {attrs : PropertyAttributes} (h : attrs.IsDecoded) (code : UInt8)
    (value : Text) : (attrs.set code value).IsDecoded := by
  unfold PropertyAttributes.set
  split <;> exact h

/-- The type and its text are set together, entry by entry. -/
private theorem IsDecoded.readFrom {attrs : PropertyAttributes} (h : attrs.IsDecoded) (fuel : Nat)
    (s : Text) : (readFrom fuel attrs s).IsDecoded := by
  induction fuel generalizing attrs s with
  | zero => exact h
  | succ fuel ih =>
    cases s with
    | nil => exact h
    | cons code s =>
      rw [PropertyAttributes.readFrom]
      split
      · -- a later type takes the place of an earlier one, together with its text
        apply ih
        exact Or.inr (congrArg some (readType_eq_parse s))
      · exact ih (h.set code _) _

/-- The type of a property is the type that its text is the encoding of, also if the text is
malformed or empty. -/
theorem isDecoded_parse (s : Text) : (parse s).IsDecoded :=
  IsDecoded.readFrom (Or.inl ⟨rfl, rfl⟩) s.length s

/-- A property with a text for its type has a type. -/
theorem IsDecoded.type_eq {attrs : PropertyAttributes} (h : attrs.IsDecoded)
    (hne : attrs.typeEncoding ≠ []) : attrs.type = some (ObjcType.parse attrs.typeEncoding) := by
  rcases h with ⟨-, hempty⟩ | htype
  · exact absurd hempty hne
  · exact htype

end PropertyAttributes

end ObjcLens
