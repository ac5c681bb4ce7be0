import Mathlib
import ObjcLens.Proofs.ObjcType.Decoded

/-!
# Reading is all or nothing

Where the reader fails, however deep in a text, the text as a whole is one unknown type. No part of
a tree that was begun is left, so that no node of a decoded type is unknown, not even in the
signature of a block, where `ObjcType.isUnknown` does not look.

Otherwise the text that was taken stands for the same type without the text behind it.

## Main results

* `isUnknown_eq_false_of_everywhere`: a tree of known nodes is known.
* `exists_taken_of_read`: a type is read from a part of the text alone.
* `decode_all_or_nothing`: what a text is decoded to.
-/

namespace ObjcLens

namespace ObjcType

/-- The node is known, and its letters are in the tables. -/
def isUnderstood : ObjcType → Bool
  | .unknown _ => false
  | .primitive quals code => quals.all isQualifier && (primitiveName? code).isSome
  | .pointer quals _ | .array quals _ _ | .tag quals _ _ | .aggregate quals _ _ _
  | .bitfield quals _ | .function quals | .block quals | .signature quals _ _
  | .object quals _ _ | .selector quals | .classObject quals => quals.all isQualifier

/-- What fits the syntax at every node has been understood at every node. -/
theorem isUnderstood_of_fitsSyntax (t : ObjcType) (h : t.fitsSyntax = true) :
    t.isUnderstood = true := by
  cases t with
  | primitive quals code => exact h
  | _ => simp_all [fitsSyntax, isUnderstood]

private theorem exists_of_anyUnknown {members : List (Member ObjcType)}
    (h : anyUnknown members = true) : ∃ m ∈ members, m.type.isUnknown = true := by
  induction members with
  | nil => cases h
  | cons m rest ih =>
    rw [anyUnknown, Bool.or_eq_true] at h
    rcases h with h | h
    · exact ⟨m, List.mem_cons_self, h⟩
    · obtain ⟨n, hn, hunknown⟩ := ih h
      exact ⟨n, List.mem_cons_of_mem _ hn, hunknown⟩

/-- A type is unknown as its root or one of its parts is. -/
theorem isUnknown_cases {t : ObjcType} (h : t.isUnknown = true) :
    (∃ raw, t = .unknown raw) ∨ ∃ u ∈ t.parts, u.isUnknown = true := by
  cases t with
  | unknown raw => exact .inl ⟨raw, rfl⟩
  | pointer quals elem | array quals length elem => exact .inr ⟨elem, List.mem_singleton_self _, h⟩
  | aggregate quals kind name members =>
    obtain ⟨m, hm, hunknown⟩ := exists_of_anyUnknown h
    exact .inr ⟨m.type, List.mem_map_of_mem hm, hunknown⟩
  -- the other types are known, the signature of a block included
  | _ => cases h

/-- A tree of known nodes is known. -/
theorem isUnknown_eq_false_of_everywhere {t : ObjcType} (h : everywhere isUnderstood t = true) :
    t.isUnknown = false := by
  induction t using induction_parts with
  | node t ih =>
    obtain ⟨hroot, hparts⟩ := (everywhere_iff t).1 h
    by_contra hunknown
    rw [Bool.not_eq_false] at hunknown
    rcases isUnknown_cases hunknown with ⟨raw, rfl⟩ | ⟨u, hu, hunknown⟩
    · cases hroot
    · exact absurd (ih u hu (hparts u hu)) (by simp [hunknown])

/-- Kind zero is that of the undecoded text and of no other type. -/
theorem kind_eq_zero_iff (t : ObjcType) : t.kind = 0 ↔ ∃ raw, t = .unknown raw := by
  cases t with
  | tag quals kind name | aggregate quals kind name members => cases kind <;> simp [ObjcType.kind]
  | _ => simp [kind]

/-- A type is taken from the front of a text, which it could also be read from alone. -/
theorem exists_taken_of_read {s : Text} {t : ObjcType} {rest : Text}
    (h : read maxDepth false s = some (t, rest)) :
    ∃ taken, s = taken ++ rest ∧ taken ≠ [] ∧ read maxDepth false taken = some (t, []) := by
  obtain ⟨taken, rfl⟩ := suffix_of_read h
  have hends : EndsClass false [] := fun hnamed => by cases hnamed
  have htaken : read maxDepth false (taken ++ []) = some (t, []) :=
    read_append_of_follows (Follows.nil false t) hends (Or.inr le_rfl) h
  rw [List.append_nil] at htaken
  refine ⟨taken, rfl, ?_, htaken⟩
  rintro rfl
  cases htaken

/-- Decoding is all or nothing. Either the whole text is one unknown type, or a part in front is
taken, which is not empty and stands for the same type alone; this type is not nested too deep, and
nowhere in it is anything unknown. Thus what a text is the encoding of is unknown only if its root
is. -/
theorem decode_all_or_nothing (s : Text) :
    (decode s = (.unknown s, []) ∨
      ∃ t used, decode s = (t, s.drop used) ∧ 1 ≤ used ∧ used ≤ s.length ∧
        t.height ≤ 64 ∧ everywhere isUnderstood t = true ∧ decode (s.take used) = (t, [])) ∧
    ((parse s).isUnknown = true ↔ (parse s).kind = 0) := by
  cases hread : read maxDepth false s with
  | none =>
    have hdecode : decode s = (.unknown s, []) := by rw [decode, hread]; rfl
    have hparse : parse s = .unknown s := by rw [parse, hdecode]
    rw [hparse]
    exact ⟨.inl hdecode, iff_of_true rfl rfl⟩
  | some p =>
    obtain ⟨t, rest⟩ := p
    have hdecode : decode s = (t, rest) := by rw [decode, hread]; rfl
    obtain ⟨taken, rfl, hne, htaken⟩ := exists_taken_of_read hread
    have hdecoded := decoded_of_read hread
    -- a node that the reader can make is one with letters of the tables
    have hnodes : everywhere isUnderstood t = true :=
      everywhere_imp isUnderstood_of_fitsSyntax hdecoded.wellFormed
    refine ⟨.inr ⟨t, taken.length, ?_, ?_, ?_, hdecoded.height_le, hnodes, ?_⟩, ?_⟩
    · rw [hdecode, List.drop_left]
    · exact List.length_pos_iff.2 hne
    · simp
    · rw [List.take_left, decode, htaken]
      rfl
    · cases rest with
      | nil =>
        have hparse : parse (taken ++ []) = t := by rw [parse, hdecode]
        rw [hparse, isUnknown_eq_false_of_everywhere hnodes]
        have hkind : t.kind ≠ 0 := by
          rw [Ne, kind_eq_zero_iff]
          rintro ⟨raw, rfl⟩
          cases hnodes
        exact iff_of_false (by simp) hkind
      | cons c rest =>
        have hparse : parse (taken ++ c :: rest) = .unknown (taken ++ c :: rest) := by
          rw [parse, hdecode]
        rw [hparse]
        exact iff_of_true rfl rfl

end ObjcType

end ObjcLens
