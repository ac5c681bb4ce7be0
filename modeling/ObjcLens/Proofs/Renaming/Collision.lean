import Mathlib
import ObjcLens.Proofs.Renaming.Survey

/-!
# Replacements do not collide

New names are given away from a ledger, on three paths: one name for a symbol, three names for a
property with its instance variable and its setter, and one name for each line of padding. Each
path tests the names that it needs before it commits them. The invariant `Ledger.Sound` says what
the reserved names are good for: they contain every name that was taken before the first symbol
and every new name since, so a free name repeats none of them.

## Main results

* `Ledger.Sound.foldl_commit`: committing free, pairwise distinct names keeps a ledger sound.
* `Ledger.Sound.assignOne`: so does finding a name for a symbol.
* `nodup_new_and_unused`: all new names of a walk are pairwise distinct, and none of them is
  mentioned on the walk, a keyword, or ignored.
-/

namespace ObjcLens.Renaming

/-- A name that nothing else goes by: it is none of the taken names, no keyword, and not ignored. -/
structure IsUnused (rules : Rules) (taken : List Text) (name : Text) : Prop where
  /-- The name is not empty. -/
  ne_nil : name ≠ []
  /-- The name is not taken. -/
  not_taken : name ∉ taken
  /-- The name is no word of the source language. -/
  not_keyword : name ∉ keywords
  /-- The name does not have to stay as it is. -/
  not_ignored : rules.isIgnored name = false

namespace Ledger

/-- A free name is neither reserved nor a keyword nor ignored. -/
theorem isFree_iff (rules : Rules) (l : Ledger) (name : Text) :
    l.isFree rules name = true ↔
      name ∉ l.reserved ∧ name ∉ keywords ∧ rules.isIgnored name = false := by
  simp [isFree, and_assoc]

/-- What stays free after a commit. -/
theorem isFree_commit (rules : Rules) (l : Ledger) (r : Rename) (name : Text) :
    (l.commit r).isFree rules name = true ↔ name ≠ r.new ∧ l.isFree rules name = true := by
  simp only [isFree_iff, commit, List.mem_cons, not_or]
  tauto

/-- The new names of a ledger are unused next to the taken names, pairwise distinct, and they are
reserved together with the taken ones. -/
structure Sound (rules : Rules) (taken : List Text) (l : Ledger) : Prop where
  /-- The taken names are reserved. -/
  taken_reserved : ∀ name ∈ taken, name ∈ l.reserved
  /-- The new names are reserved. -/
  new_reserved : ∀ r ∈ l.renames, r.new ∈ l.reserved
  /-- The new names are unused. -/
  new_unused : ∀ r ∈ l.renames, IsUnused rules taken r.new
  /-- No new name is given away twice. -/
  new_nodup : (l.renames.map (·.new)).Nodup

variable {rules : Rules} {taken : List Text} {l : Ledger}

/-- A free name of a sound ledger is unused. -/
theorem Sound.isUnused (h : l.Sound rules taken) {name : Text} (hne : name ≠ [])
    (hfree : l.isFree rules name = true) : IsUnused rules taken name := by
  obtain ⟨hreserved, hkeyword, hignored⟩ := (l.isFree_iff rules name).1 hfree
  exact ⟨hne, fun hmem => hreserved (h.taken_reserved name hmem), hkeyword, hignored⟩

/-- A free name of a sound ledger is not a new name yet. -/
theorem Sound.not_mem_new (h : l.Sound rules taken) {name : Text}
    (hfree : l.isFree rules name = true) : name ∉ l.renames.map (·.new) := by
  obtain ⟨hreserved, -, -⟩ := (l.isFree_iff rules name).1 hfree
  intro hmem
  obtain ⟨r, hr, rfl⟩ := List.mem_map.1 hmem
  exact hreserved (h.new_reserved r hr)

/-- Committing a free name keeps the ledger sound. -/
theorem Sound.commit (h : l.Sound rules taken) {r : Rename} (hne : r.new ≠ [])
    (hfree : l.isFree rules r.new = true) : (l.commit r).Sound rules taken where
  taken_reserved name hmem := List.mem_cons_of_mem _ (h.taken_reserved name hmem)
  new_reserved := by
    rintro s (_ | ⟨_, hs⟩)
    · exact List.mem_cons_self
    · exact List.mem_cons_of_mem _ (h.new_reserved s hs)
  new_unused := by
    rintro s (_ | ⟨_, hs⟩)
    · exact h.isUnused hne hfree
    · exact h.new_unused s hs
  new_nodup := by
    rw [Ledger.commit, List.map_cons, List.nodup_cons]
    exact ⟨h.not_mem_new hfree, h.new_nodup⟩

/-- Committing free, pairwise distinct names one after the other keeps the ledger sound. -/
theorem Sound.foldl_commit (renames : List Rename) (h : l.Sound rules taken)
    (hne : ∀ r ∈ renames, r.new ≠ []) (hfree : ∀ r ∈ renames, l.isFree rules r.new = true)
    (hnodup : (renames.map (·.new)).Nodup) :
    (renames.foldl Ledger.commit l).Sound rules taken := by
  induction renames generalizing l with
  | nil => exact h
  | cons r rest ih =>
    rw [List.map_cons, List.nodup_cons] at hnodup
    rw [List.foldl_cons]
    refine ih (h.commit (hne r List.mem_cons_self) (hfree r List.mem_cons_self))
      (fun s hs => hne s (List.mem_cons_of_mem _ hs)) (fun s hs => ?_) hnodup.2
    have hdiff : s.new ≠ r.new := fun he => hnodup.1 (he ▸ List.mem_map_of_mem hs)
    exact (isFree_commit rules l r s.new).2 ⟨hdiff, hfree s (List.mem_cons_of_mem _ hs)⟩

end Ledger

/-- A generated name is not empty. -/
theorem candidate_ne_nil (rules : Rules) (name : Text) (attempt : Nat) (upper : Bool) :
    candidate rules name attempt upper ≠ [] := by
  simp [candidate, nameOfHash]

/-- The new name of a symbol is not empty. -/
theorem newName_ne_nil (rules : Rules) (name : Text) (u : Usage) (attempt : Nat) :
    newName rules name u attempt ≠ [] := by
  unfold newName
  dsimp only
  split
  · simp [ivarOf]
  · exact candidate_ne_nil _ _ _ _

/-- A setter is three bytes longer than the name of its property. -/
theorem length_setter (name : Text) : (setter name).length = name.length + 3 := by
  have hset : (Text.ofString "set").length = 3 := by decide
  cases name with
  | nil => exact hset
  | cons b rest => simp [setter, hset]; omega

/-- The names that a symbol needs are not empty. -/
theorem ne_nil_of_mem_neededNames {u : Usage} {new name : Text} (hnew : new ≠ [])
    (h : name ∈ neededNames u new) : name ≠ [] := by
  have hlength : new.length ≠ 0 := by simpa using hnew
  have hsetter : setter new ≠ [] := by
    rw [← List.length_pos_iff, length_setter]
    omega
  unfold neededNames at h
  split at h
  · simp only [List.mem_cons, List.not_mem_nil, or_false] at h
    rcases h with rfl | rfl | rfl
    · exact hnew
    · simp [ivarOf]
    · exact hsetter
  · simp only [List.mem_singleton] at h
    exact h ▸ hnew

/-- The names that a symbol needs differ in length, so they are pairwise distinct. -/
theorem nodup_neededNames (u : Usage) (new : Text) : (neededNames u new).Nodup := by
  have hivar : (ivarOf new).length = new.length + 1 := rfl
  have hsetter := length_setter new
  unfold neededNames
  split
  · refine List.Nodup.of_map List.length ?_
    simp only [List.map_cons, List.map_nil, hivar, hsetter]
    simp
  · simp

/-- The replacements of a symbol and its followers replace names that the symbol needs of the old
name, and take names that it needs of the new one. -/
theorem renamesOf_sublist (t : UsageTable) (name : Text) (u : Usage) (new : Text) :
    ((renamesOf t name u new).map (·.old)).Sublist (neededNames u name) ∧
      ((renamesOf t name u new).map (·.new)).Sublist (neededNames u new) := by
  unfold renamesOf neededNames
  cases u.isProperty
  · simp
  · by_cases hivar : t.knows (ivarOf name) = true <;>
      by_cases hsetter : t.knows (setter name) = true <;> simp [hivar, hsetter]

open Ledger

variable {rules : Rules} {taken : List Text} {l : Ledger}

/-- A name that is found for a symbol keeps the ledger sound. The induction is on the attempts
that are left; only the one that succeeds changes the ledger. -/
theorem Ledger.Sound.tryNames (h : l.Sound rules taken) {t : UsageTable} {name : Text}
    {u : Usage} {left attempt : Nat} {l' : Ledger}
    (hfound : tryNames rules t name u l left attempt = some l') : l'.Sound rules taken := by
  induction left generalizing attempt with
  | zero => simp [Renaming.tryNames] at hfound
  | succ left ih =>
    simp only [Renaming.tryNames] at hfound
    split at hfound
    · rename_i hfree
      cases hfound
      rw [List.all_eq_true] at hfree
      have hsub := (renamesOf_sublist t name u (newName rules name u attempt)).2
      have hneeded : ∀ r ∈ renamesOf t name u (newName rules name u attempt),
          r.new ∈ neededNames u (newName rules name u attempt) := fun r hr =>
        hsub.subset (List.mem_map_of_mem hr)
      exact h.foldl_commit _
        (fun r hr => ne_nil_of_mem_neededNames (newName_ne_nil _ _ _ _) (hneeded r hr))
        (fun r hr => hfree _ (hneeded r hr)) (hsub.nodup (nodup_neededNames ..))
    · exact ih hfound

/-- One more symbol keeps the ledger sound, whether a name was found for it or not. -/
theorem Ledger.Sound.assignOne (h : l.Sound rules taken) (t : UsageTable) (name : Text) :
    (assignOne rules t l name).Sound rules taken := by
  unfold Renaming.assignOne
  split
  · exact h
  · rename_i u _
    dsimp only
    split
    · rename_i hfound
      refine Sound.tryNames ?_ hfound
      exact ⟨h.taken_reserved, h.new_reserved, h.new_unused, h.new_nodup⟩
    · exact ⟨h.taken_reserved, h.new_reserved, h.new_unused, h.new_nodup⟩

/-- All symbols keep the ledger sound. -/
theorem Ledger.Sound.foldl_assignOne (t : UsageTable) (symbols : List Text)
    (h : l.Sound rules taken) :
    (symbols.foldl (Renaming.assignOne rules t) l).Sound rules taken := by
  induction symbols generalizing l with
  | nil => exact h
  | cons name rest ih => exact ih (h.assignOne t name)

/-- Padding collects free names, each once. -/
theorem pad_nodup_free (rules : Rules) (l : Ledger) (left index : Nat) (names : List Text)
    (hnodup : names.Nodup) (hfree : ∀ name ∈ names, name ≠ [] ∧ l.isFree rules name = true) :
    (pad rules l left index names).Nodup ∧
      ∀ name ∈ pad rules l left index names, name ≠ [] ∧ l.isFree rules name = true := by
  induction left generalizing index names with
  | zero => exact ⟨hnodup, hfree⟩
  | succ left ih =>
    simp only [pad]
    split
    · exact ⟨hnodup, hfree⟩
    · split
      · rename_i hnew
        simp only [Bool.and_eq_true, Bool.not_eq_true', List.contains_eq_mem,
          decide_eq_false_iff_not] at hnew
        refine ih _ _ (List.nodup_cons.2 ⟨hnew.2, hnodup⟩) ?_
        rintro name (_ | ⟨_, hmem⟩)
        · exact ⟨candidate_ne_nil _ _ _ _, hnew.1⟩
        · exact hfree name hmem
      · exact ih _ _ hnodup hfree

/-- The new names of an assignment are pairwise distinct and unused next to the names of its
table and the ignored ones. -/
theorem assign_nodup_unused (rules : Rules) (t : UsageTable) :
    ((assign rules t).renames.map (·.new) ++ (assign rules t).padding).Nodup ∧
      ∀ name ∈ (assign rules t).renames.map (·.new) ++ (assign rules t).padding,
        IsUnused rules (t.names ++ rules.ignoredNames) name := by
  let start : Ledger := { reserved := t.map (·.1) ++ rules.ignoredNames }
  let l := (leaders t).foldl (assignOne rules t) start
  have hstart : start.Sound rules (t.names ++ rules.ignoredNames) :=
    ⟨fun _ hmem => hmem, by simp [start], by simp [start], by simp [start]⟩
  have hl : l.Sound rules (t.names ++ rules.ignoredNames) := hstart.foldl_assignOne t _
  -- padding is found when all symbols have their names, and is free of them
  obtain ⟨hpadNodup, hpadFree⟩ :=
    pad_nodup_free rules l (paddingLimit rules) 0 [] (by simp) (by simp)
  -- sorting and turning round move the replacements and change none
  have hrenames : (assign rules t).renames.Perm l.renames :=
    (Quicksort.sort_perm _ _).trans l.renames.reverse_perm
  have hnew : ((assign rules t).renames.map (·.new)).Perm (l.renames.map (·.new)) :=
    hrenames.map _
  have hpadding : (assign rules t).padding = (pad rules l (paddingLimit rules) 0 []).reverse := rfl
  refine ⟨?_, fun name hmem => ?_⟩
  · rw [hpadding]
    refine List.nodup_append.2 ⟨hnew.nodup_iff.2 hl.new_nodup, List.nodup_reverse.2 hpadNodup, ?_⟩
    rintro name hmem _ hpad rfl
    rw [List.mem_reverse] at hpad
    exact hl.not_mem_new (hpadFree name hpad).2 (hnew.mem_iff.1 hmem)
  · rw [hpadding, List.mem_append, List.mem_reverse, hnew.mem_iff] at hmem
    rcases hmem with hmem | hpad
    · obtain ⟨r, hr, rfl⟩ := List.mem_map.1 hmem
      exact hl.new_unused r hr
    · exact hl.isUnused (hpadFree name hpad).1 (hpadFree name hpad).2

/-- Replacements never collide. After a walk under any rules, and so for any settings, any hash
and any test of names, the new names of all replacements followed by the padding are pairwise
distinct. None of them is mentioned on the walk, a keyword, an ignored name as it is written, or
a name that a pattern ignores. -/
theorem nodup_new_and_unused (rules : Rules) (model : Model) (visible : Entity → Bool)
    (r : Renamer) :
    let result := (r.seeAll rules model (model.walk visible)).result
    let new := result.renames.map (·.new) ++ result.padding
    new.Nodup ∧ ∀ name ∈ new,
      name ∉ (model.walk visible).flatMap (mentions rules) ∧ name ∉ keywords ∧
        name ∉ rules.ignoredNames ∧ rules.isIgnored name = false := by
  intro result new
  obtain ⟨t, hresult, hnames⟩ := seeAll_walk rules model visible r
  have hassign := assign_nodup_unused rules t
  rw [← hresult] at hassign
  obtain ⟨hnodup, hunused⟩ := hassign
  refine ⟨hnodup, fun name hmem => ?_⟩
  have hname := hunused name hmem
  -- a name that is mentioned has an entry in the table, and every entry is reserved
  have htaken := hname.not_taken
  rw [List.mem_append, not_or, hnames] at htaken
  exact ⟨fun hmention => htaken.1 ⟨hname.ne_nil, hmention⟩, hname.not_keyword, htaken.2,
    hname.not_ignored⟩

end ObjcLens.Renaming
