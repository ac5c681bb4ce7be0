import Mathlib
import ObjcLens.Proofs.Text.Numeral

/-!
# Cutting texts

Text in front of the first separator is found again, and text that is trimmed loses only what was
put around it.

## Main results

* `cut?_append`, `splitOn_append`: cutting behind text without the separator.
* `cutText?_append_pair`: the same for a separator of two bytes.
* `cutText?_eq_none_iff`: a text is not found where it does not occur.
* `not_infix_of_mem_splitOnText`: pieces do not have the separator in them.
* `trim_append`: trimming text that starts and ends with no byte of the set.
-/

namespace ObjcLens.Text

/-- Cutting at the first separator finds the text in front of it. -/
theorem cut?_append {sep : UInt8} {s : Text} (h : sep ∉ s) (rest : Text) :
    cut? sep (s ++ sep :: rest) = some (s, rest) := by
  have hsep : StartsNot (· != sep) (sep :: rest) := by simp [StartsNot]
  obtain ⟨htake, hdrop⟩ := takeWhile_append_of_not_mem h hsep
  simp only [cut?, hdrop, htake]

/-- Text in front of the first separator is a piece of its own. -/
theorem splitOn_append {sep : UInt8} {s : Text} (h : sep ∉ s) (rest : Text) :
    splitOn sep (s ++ sep :: rest) = s :: splitOn sep rest := by
  induction s with
  | nil => rw [List.nil_append, splitOn, if_pos rfl]
  | cons c s ih =>
    rw [List.mem_cons, not_or] at h
    rw [List.cons_append, splitOn, if_neg (Ne.symm h.1), ih h.2]

/-- What is cut is put together again. -/
theorem eq_append_of_cut? {sep : UInt8} {s before rest : Text}
    (h : cut? sep s = some (before, rest)) : s = before ++ sep :: rest ∧ sep ∉ before := by
  have hrun : sep ∉ s.takeWhile (· != sep) := fun hmem => by
    simpa using List.mem_takeWhile_imp hmem
  have hsplit : s.takeWhile (· != sep) ++ s.dropWhile (· != sep) = s :=
    List.takeWhile_append_dropWhile
  rw [cut?] at h
  split at h
  · cases h
  · rename_i c rest' hdrop
    -- the run ends at the first byte that fails the test, which can only be the separator
    have hc : c = sep := by
      have hhead := List.head?_dropWhile_not (· != sep) s
      simpa [hdrop] using hhead
    obtain ⟨rfl, rfl⟩ := Prod.mk.inj (Option.some.inj h)
    rw [hdrop, hc] at hsplit
    exact ⟨hsplit.symm, hrun⟩

/-- A separator is not found where it does not occur. -/
theorem cut?_eq_none_iff {sep : UInt8} {s : Text} : cut? sep s = none ↔ sep ∉ s := by
  constructor
  · intro h hmem
    obtain ⟨before, rest, rfl, hsep⟩ := List.eq_append_cons_of_mem hmem
    rw [cut?_append hsep] at h
    cases h
  · intro h
    cases hcut : cut? sep s with
    | none => rfl
    | some pieces =>
      obtain ⟨rfl, -⟩ := eq_append_of_cut? hcut
      exact absurd List.mem_append_cons_self h

/-- A text that does not occur does not occur further on. -/
theorem cutText?_eq_none_cons {sep : Text} {c : UInt8} {s : Text}
    (h : cutText? sep (c :: s) = none) :
    sep.isPrefixOf (c :: s) = false ∧ cutText? sep s = none := by
  rw [cutText?] at h
  split at h
  · simp at h
  · rename_i hfirst
    exact ⟨Bool.eq_false_iff.2 hfirst, by simpa using h⟩

/-- A pair of different bytes that does not occur in a text does not start in it when its first
byte is put behind. -/
private theorem not_pair_isPrefixOf {a b : UInt8} (hab : a ≠ b) {c : UInt8} {s : Text}
    (h : [a, b].isPrefixOf (c :: s) = false) (rest : Text) :
    [a, b].isPrefixOf (c :: (s ++ a :: rest)) = false := by
  cases s with
  | nil =>
    have hba : (b == a) = false := by simpa using hab.symm
    simp [List.isPrefixOf, hba]
  | cons d s => simpa [List.isPrefixOf] using h

/-- Cutting at the first pair of different bytes finds the text in front of it. -/
theorem cutText?_append_pair {a b : UInt8} (hab : a ≠ b) {s : Text}
    (h : cutText? [a, b] s = none) (rest : Text) :
    cutText? [a, b] (s ++ a :: b :: rest) = some (s, rest) := by
  induction s with
  | nil => simp [cutText?, List.isPrefixOf]
  | cons c s ih =>
    obtain ⟨hfirst, hrest⟩ := cutText?_eq_none_cons h
    have hstart := not_pair_isPrefixOf hab hfirst (b :: rest)
    simp only [List.cons_append, cutText?, hstart, Bool.false_eq_true, if_false, ih hrest,
      Option.map_some]

/-- The first byte of a pair alone is no pair. -/
theorem cutText?_append_single {a b : UInt8} (hab : a ≠ b) {s : Text}
    (h : cutText? [a, b] s = none) : cutText? [a, b] (s ++ [a]) = none := by
  induction s with
  | nil => simp [cutText?, List.isPrefixOf]
  | cons c s ih =>
    obtain ⟨hfirst, hrest⟩ := cutText?_eq_none_cons h
    have hstart := not_pair_isPrefixOf hab hfirst []
    simp only [List.cons_append, cutText?, hstart, Bool.false_eq_true, if_false, ih hrest,
      Option.map_none]

/-- A text is not found where it does not occur. -/
theorem cutText?_eq_none_iff {sep : Text} (hsep : sep ≠ []) {s : Text} :
    cutText? sep s = none ↔ ¬ sep <:+: s := by
  induction s with
  | nil => simp [cutText?, hsep]
  | cons c s ih =>
    rw [cutText?, List.infix_cons_iff, not_or, ← List.isPrefixOf_iff_prefix]
    split
    · simp_all
    · rw [Option.map_eq_none_iff, ih]
      simp_all

/-- What is in front of the first occurrence of a text does not have it. -/
theorem not_infix_of_cutText? {sep : Text} (hsep : sep ≠ []) {s before after : Text}
    (h : cutText? sep s = some (before, after)) :
    s = before ++ sep ++ after ∧ ¬ sep <:+: before := by
  induction s generalizing before with
  | nil =>
    rw [cutText?, if_neg (by simpa using hsep)] at h
    cases h
  | cons c s ih =>
    rw [cutText?] at h
    split at h
    · rename_i hstart
      obtain ⟨rfl, rfl⟩ := Prod.mk.inj (Option.some.inj h)
      rw [List.isPrefixOf_iff_prefix] at hstart
      refine ⟨(List.prefix_append_drop hstart), ?_⟩
      simpa using hsep
    · rename_i hstart
      obtain ⟨⟨before', after'⟩, hcut, heq⟩ := Option.map_eq_some_iff.1 h
      obtain ⟨rfl, rfl⟩ := Prod.mk.inj heq
      obtain ⟨rfl, hno⟩ := ih hcut
      refine ⟨rfl, ?_⟩
      rw [List.infix_cons_iff, not_or]
      refine ⟨fun hprefix => hstart ?_, hno⟩
      rw [List.isPrefixOf_iff_prefix]
      exact hprefix.trans ⟨sep ++ after', by simp⟩

/-- The pieces of a text are parts of it that do not have the separator in them. -/
theorem not_infix_of_mem_splitOnText {sep : Text} (hsep : sep ≠ []) (s : Text) :
    ∀ piece ∈ splitOnText sep s, ¬ sep <:+: piece ∧ piece <:+: s := by
  have hpieces (fuel : Nat) (s : Text) (hfuel : s.length ≤ fuel) :
      ∀ piece ∈ splitOnTextFuel sep fuel s, ¬ sep <:+: piece ∧ piece <:+: s := by
    induction fuel generalizing s with
    | zero =>
      obtain rfl : s = [] := List.length_eq_zero_iff.1 (Nat.le_zero.1 hfuel)
      simpa [splitOnTextFuel] using hsep
    | succ fuel ih =>
      intro piece hpiece
      rw [splitOnTextFuel] at hpiece
      split at hpiece
      · rename_i hnone
        obtain rfl := List.mem_singleton.1 hpiece
        exact ⟨(cutText?_eq_none_iff hsep).1 hnone, List.infix_rfl⟩
      · rename_i before after hcut
        obtain ⟨rfl, hno⟩ := not_infix_of_cutText? hsep hcut
        -- the separator is not empty, so what is left behind it is shorter and the fuel is enough
        have hlength : after.length ≤ fuel := by
          have hpos := List.length_pos_iff.2 hsep
          simp only [List.length_append] at hfuel
          omega
        rcases List.mem_cons.1 hpiece with rfl | hpiece
        · exact ⟨hno, (List.prefix_append_of_prefix (List.prefix_append _ sep)).isInfix⟩
        · obtain ⟨hfree, hwithin⟩ := ih after hlength piece hpiece
          exact ⟨hfree, hwithin.trans (List.suffix_append _ after).isInfix⟩
  exact hpieces s.length s le_rfl

/-- What is left when a text is trimmed is a part of it. -/
theorem trim_infix (drop : UInt8 → Bool) (s : Text) : trim drop s <:+: s := by
  have hfront : (s.dropWhile drop).reverse.dropWhile drop <:+ (s.dropWhile drop).reverse :=
    List.dropWhile_suffix drop
  have hprefix : trim drop s <+: s.dropWhile drop := by
    rw [trim, ← List.reverse_suffix, List.reverse_reverse]
    exact hfront
  exact hprefix.isInfix.trans (List.dropWhile_suffix drop).isInfix

/-- A trimmed text starts and ends with no byte of the set. -/
theorem trim_ends (drop : UInt8 → Bool) (s : Text) :
    (trim drop s).head?.any drop = false ∧ (trim drop s).getLast?.any drop = false := by
  have hstart (s : Text) : (s.dropWhile drop).head?.any drop = false := by
    have hhead := List.head?_dropWhile_not drop s
    cases hfirst : (s.dropWhile drop).head? with
    | none => rfl
    | some b => simpa [hfirst] using hhead
  constructor
  · -- what is left starts like the text without its leading bytes, unless nothing is left
    have hprefix : trim drop s <+: s.dropWhile drop := by
      rw [trim, ← List.reverse_suffix, List.reverse_reverse]
      exact List.dropWhile_suffix drop
    obtain ⟨tail, htail⟩ := hprefix
    have hfirst := hstart s
    rw [← htail] at hfirst
    cases htrim : trim drop s with
    | nil => rfl
    | cons c rest => simpa [htrim] using hfirst
  · rw [trim, List.getLast?_reverse]
    exact hstart _

/-- Trimming removes what was put around a text that starts and ends with no byte of the set. -/
theorem trim_append {drop : UInt8 → Bool} {before s after : Text} (hs : s ≠ [])
    (hhead : s.head?.any drop = false) (hlast : s.getLast?.any drop = false)
    (hbefore : ∀ b ∈ before, drop b = true) (hafter : ∀ b ∈ after, drop b = true) :
    trim drop (before ++ s ++ after) = s := by
  have hstart : StartsNot drop (s ++ after) := by
    cases s with
    | nil => exact absurd rfl hs
    | cons c s => exact StartsNot.cons (by simpa using hhead) _
  have hend : StartsNot drop s.reverse := by
    intro b hb
    rw [List.head?_reverse] at hb
    rw [Option.mem_def.1 hb] at hlast
    simpa using hlast
  unfold trim
  rw [List.append_assoc, (takeWhile_append_of_startsNot hbefore hstart).2, List.reverse_append,
    (takeWhile_append_of_startsNot (by simpa using hafter) hend).2, List.reverse_reverse]

end ObjcLens.Text
