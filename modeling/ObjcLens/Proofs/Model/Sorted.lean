import Mathlib
import ObjcLens.Model.Walk

/-!
# Sorted entities

A walk sees the entities of a model in the order of their names, and categories in the order of
class and name. Sorting is stable: entities of the same name stay in the order of the model. If no
name repeats, the order of the model leaves no trace.

## Main results

* `IsStableSort.mergeSort`: sorting by a key is stable.
* `IsStableSort.eq`: a list has one stable sort only.
* `mergeSort_eq_of_perm`: where keys tell elements apart, lists with the same elements are sorted to
  the same list.
-/

namespace ObjcLens

/-- A comparison that puts any two keys in order, and distinct ones in one order only. -/
structure IsOrder {κ : Type} (le : κ → κ → Bool) : Prop where
  trans : ∀ a b c, le a b = true → le b c = true → le a c = true
  total : ∀ a b, (le a b || le b a) = true
  antisymm : ∀ a b, le a b = true → le b a = true → a = b

namespace IsOrder

variable {κ : Type} {le : κ → κ → Bool}

theorem refl (h : IsOrder le) (a : κ) : le a a = true := by
  simpa using h.total a a

end IsOrder

/-- Byte by byte comparison is a total order of texts. -/
theorem Text.isOrder_le : IsOrder Text.le where
  trans a b c hab hbc := by
    simp only [Text.le, decide_eq_true_eq] at *
    exact List.le_trans hab hbc
  total a b := by
    simpa [Text.le] using List.le_total a b
  antisymm a b hab hba := by
    simp only [Text.le, decide_eq_true_eq] at *
    exact List.le_antisymm hab hba

/-- Pairs of texts by their first part, then by their second. -/
def pairLe (p q : Text × Text) : Bool :=
  if p.1 = q.1 then Text.le p.2 q.2 else Text.le p.1 q.1

/-- Pairs of texts are ordered by the first and then by the second component. -/
theorem isOrder_pairLe : IsOrder pairLe where
  trans p q r hpq hqr := by
    unfold pairLe at *
    -- either way the first parts are in order
    have hle : Text.le p.1 q.1 = true ∧ Text.le q.1 r.1 = true := by
      constructor
      · split at hpq
        · rename_i h
          rw [h]
          exact Text.isOrder_le.refl _
        · exact hpq
      · split at hqr
        · rename_i h
          rw [h]
          exact Text.isOrder_le.refl _
        · exact hqr
    by_cases hpr : p.1 = r.1
    · -- then all three first parts are the same, and the second parts decide
      have hq : p.1 = q.1 := Text.isOrder_le.antisymm _ _ hle.1 (hpr ▸ hle.2)
      rw [if_pos hq] at hpq
      rw [if_pos (hq.symm.trans hpr)] at hqr
      rw [if_pos hpr]
      exact Text.isOrder_le.trans _ _ _ hpq hqr
    · rw [if_neg hpr]
      exact Text.isOrder_le.trans _ _ _ hle.1 hle.2
  total p q := by
    unfold pairLe
    by_cases h : p.1 = q.1
    · rw [if_pos h, if_pos h.symm]
      exact Text.isOrder_le.total _ _
    · rw [if_neg h, if_neg (Ne.symm h)]
      exact Text.isOrder_le.total _ _
  antisymm p q hpq hqp := by
    unfold pairLe at *
    by_cases h : p.1 = q.1
    · rw [if_pos h] at hpq
      rw [if_pos h.symm] at hqp
      exact Prod.ext h (Text.isOrder_le.antisymm _ _ hpq hqp)
    · rw [if_neg h] at hpq
      rw [if_neg (Ne.symm h)] at hqp
      exact absurd (Text.isOrder_le.antisymm _ _ hpq hqp) h

/-- The class and the name of a category, by which it is told from others. -/
def Category.place (c : Category) : Text × Text := (c.className, c.name)

/-- The second list has the elements of the first in the order of their keys. Those of the same
key are in the order of the first list. -/
structure IsStableSort {α κ : Type} [DecidableEq κ] (key : α → κ) (le : κ → κ → Bool)
    (xs ys : List α) : Prop where
  /-- No element is lost or added. -/
  perm : ys.Perm xs
  /-- The keys are in order. -/
  ordered : ys.Pairwise fun a b => le (key a) (key b) = true
  /-- Elements of the same key keep their order. -/
  stable : ∀ k, ys.filter (fun a => key a = k) = xs.filter fun a => key a = k

section

variable {α κ : Type} [DecidableEq κ] {key : α → κ} {le : κ → κ → Bool}

/-- The sorting function of the library gives the stable sort by a key. -/
theorem IsStableSort.mergeSort (hle : IsOrder le) (xs : List α) :
    IsStableSort key le xs (xs.mergeSort fun a b => le (key a) (key b)) := by
  let before (a b : α) : Bool := le (key a) (key b)
  have htrans (a b c : α) : before a b = true → before b c = true → before a c = true :=
    hle.trans (key a) (key b) (key c)
  have htotal (a b : α) : (before a b || before b a) = true := hle.total (key a) (key b)
  have hperm : (xs.mergeSort before).Perm xs := List.mergeSort_perm xs before
  refine ⟨hperm, List.pairwise_mergeSort htrans htotal xs, ?_⟩
  intro k
  -- elements of one key are in order already, so sorting keeps them as a sublist
  have hsame : (xs.filter fun a => key a = k).Pairwise fun a b => before a b = true := by
    refine List.pairwise_iff_forall_sublist.2 ?_
    intro a b hab
    have ha : a ∈ xs.filter fun a => key a = k := hab.subset (by simp)
    have hb : b ∈ xs.filter fun a => key a = k := hab.subset (by simp)
    simp only [List.mem_filter, decide_eq_true_eq] at ha hb
    simp only [before, ha.2, hb.2]
    exact hle.refl k
  have hsub := (List.sublist_mergeSort htrans htotal hsame List.filter_sublist).filter
    fun a => key a = k
  rw [List.filter_filter] at hsub
  simp only [Bool.and_self] at hsub
  have hlength := (hperm.filter fun a => key a = k).length_eq
  exact (hsub.eq_of_length hlength.symm).symm

/-- A list has one stable sort only. -/
theorem IsStableSort.eq (hle : IsOrder le) {xs ys zs : List α} (hys : IsStableSort key le xs ys)
    (hzs : IsStableSort key le xs zs) : ys = zs := by
  -- the first of each has the least key, and is the first of that key
  induction ys generalizing xs zs with
  | nil =>
    have hperm := hzs.perm.trans hys.perm.symm
    exact (List.perm_nil.1 hperm).symm
  | cons y ys ih =>
    have hperm := hys.perm.trans hzs.perm.symm
    cases zs with
    | nil => exact absurd hperm.length_eq (by simp)
    | cons z zs =>
      have hkey : key y = key z := by
        have hyz : le (key y) (key z) = true := by
          rcases List.mem_cons.1 (hperm.symm.subset List.mem_cons_self) with h | h
          · rw [h]
            exact hle.refl _
          · exact List.rel_of_pairwise_cons hys.ordered h
        have hzy : le (key z) (key y) = true := by
          rcases List.mem_cons.1 (hperm.subset List.mem_cons_self) with h | h
          · rw [h]
            exact hle.refl _
          · exact List.rel_of_pairwise_cons hzs.ordered h
        exact hle.antisymm _ _ hyz hzy
      have hfilter (k : κ) := (hys.stable k).trans (hzs.stable k).symm
      have hhead : y = z := by
        have hfirst := hfilter (key y)
        rw [List.filter_cons_of_pos (by simp), List.filter_cons_of_pos (by simp [hkey])] at hfirst
        exact (List.cons.inj hfirst).1
      subst hhead
      have htail : IsStableSort key le ys ys := ⟨.refl ys, hys.ordered.tail, fun _ => rfl⟩
      have htail' : IsStableSort key le ys zs := by
        refine ⟨((List.perm_cons y).1 hperm).symm, hzs.ordered.tail, fun k => ?_⟩
        have hrest := hfilter k
        by_cases hk : key y = k
        · rw [List.filter_cons_of_pos (by simpa using hk),
            List.filter_cons_of_pos (by simpa using hk)] at hrest
          exact (List.cons.inj hrest).2.symm
        · rw [List.filter_cons_of_neg (by simpa using hk),
            List.filter_cons_of_neg (by simpa using hk)] at hrest
          exact hrest.symm
      rw [ih htail htail']

/-- A part of a sorted list that is picked by a test is sorted. -/
theorem IsStableSort.filter {xs ys : List α} (h : IsStableSort key le xs ys) (p : α → Bool) :
    IsStableSort key le (xs.filter p) (ys.filter p) where
  perm := h.perm.filter p
  ordered := h.ordered.filter p
  stable k := by
    have hcomm (l : List α) : (l.filter p).filter (fun a => key a = k) =
        (l.filter fun a => key a = k).filter p := by
      rw [List.filter_filter, List.filter_filter]
      exact List.filter_congr fun a _ => Bool.and_comm _ _
    rw [hcomm, hcomm, h.stable k]

/-- Where the first parts of keys agree, the second parts are in order. -/
theorem IsStableSort.snd {key : α → Text × Text} {xs ys : List α} {k : Text}
    (h : IsStableSort key pairLe xs ys) (hfst : ∀ a ∈ xs, (key a).1 = k) :
    IsStableSort (fun a => (key a).2) Text.le xs ys where
  perm := h.perm
  ordered := by
    refine h.ordered.imp_of_mem ?_
    intro a b ha hb hab
    rw [pairLe, hfst a (h.perm.subset ha), hfst b (h.perm.subset hb), if_pos rfl] at hab
    exact hab
  stable k' := by
    -- all first parts are the same, so pairs are the same if the second parts are
    have hkey {l : List α} (hl : l ⊆ xs) : l.filter (fun a => (key a).2 = k') =
        l.filter fun a => key a = (k, k') := by
      refine List.filter_congr fun a ha => ?_
      simp [Prod.ext_iff, hfst a (hl ha)]
    rw [hkey h.perm.subset, hkey (List.Subset.refl xs), h.stable]

/-- Where keys tell elements apart, sorting forgets the order of the list. -/
theorem mergeSort_eq_of_perm (hle : IsOrder le) {xs ys : List α} (h : xs.Perm ys)
    (hkey : ∀ a ∈ xs, ∀ b ∈ xs, key a = key b → a = b) :
    (xs.mergeSort fun a b => le (key a) (key b)) = ys.mergeSort fun a b => le (key a) (key b) := by
  have hxs : IsStableSort key le xs _ := .mergeSort hle xs
  have hys : IsStableSort key le ys _ := .mergeSort hle ys
  refine List.Perm.eq_of_pairwise ?_ hxs.ordered hys.ordered
    (hxs.perm.trans (h.trans hys.perm.symm))
  intro a b ha hb hab hba
  exact hkey a (hxs.perm.subset ha) b (h.symm.subset (hys.perm.subset hb))
    (hle.antisymm _ _ hab hba)

end

end ObjcLens
