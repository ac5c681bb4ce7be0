import Mathlib
import ObjcLens.Proofs.Session.Failing
import ObjcLens.Proofs.Slice.Selection

/-!
# Slices of several architectures

A session reads a slice for every architecture that it is asked for, and no slice twice. Taken
alone, an architecture selects the first slice that matches it; `Session.requestedSlices` lists the
slices that are selected in this way, each of them once.

The session looks for a slice that matches and does not lie where one was taken. This is not the
same thing. If the selected slice was taken before, the search runs on to other slices that match
(`Session.RunsOn`). If it lies where a slice for another architecture was taken, it is lost
(`Session.Collide`). Otherwise the session reads the requested slices.

## Main results

* `Session.matchingSlices_eq_of_not_runsOn`: what the session takes if no search runs on.
* `Session.exists_mem_matchingSlices_of_runsOn`: what it takes besides if one does.
* `Session.matchingSlices_append_cons_of_mem`: an architecture that is asked for again.
* `Session.selectSlices_eq_requestedSlices_iff`: when the session reads the requested slices.
-/

namespace ObjcLens

section Occurrences

variable {α κ : Type} [DecidableEq κ] {key : α → κ} {l : List α}

/-- Each key has a first occurrence. -/
theorem exists_mem_firstOccurrences_iff {k : κ} :
    (∃ x ∈ firstOccurrences key l, key x = k) ↔ ∃ x ∈ l, key x = k := by
  have h := congrArg Option.isSome (find?_firstOccurrences key l k)
  rw [Bool.eq_iff_iff] at h
  simpa only [List.find?_isSome, decide_eq_true_eq] using h

/-- No two first occurrences have the same key. -/
theorem nodup_map_firstOccurrences (key : α → κ) (l : List α) :
    ((firstOccurrences key l).map key).Nodup := by
  induction l using List.reverseRecOn with
  | nil => simp [firstOccurrences, withEarlier]
  | append_singleton l x ih =>
    rw [firstOccurrences_concat]
    split
    · simpa using ih
    · rename_i hnew
      rw [List.map_append, List.nodup_append']
      refine ⟨ih, by simp, ?_⟩
      have hnone : ¬∃ y ∈ l, key y = key x := by simpa using hnew
      rw [← exists_mem_firstOccurrences_iff] at hnone
      simpa using hnone

variable [DecidableEq α]

theorem mem_firstOccurrences_id_iff {x : α} : x ∈ firstOccurrences id l ↔ x ∈ l := by
  have h : (∃ y ∈ firstOccurrences id l, id y = x) ↔ ∃ y ∈ l, id y = x :=
    exists_mem_firstOccurrences_iff
  simpa using h

/-- If a key tells elements apart, it has the first occurrences of the elements themselves. -/
theorem firstOccurrences_eq_id (h : ∀ x ∈ l, ∀ y ∈ l, key x = key y → x = y) :
    firstOccurrences key l = firstOccurrences id l := by
  induction l using List.reverseRecOn with
  | nil => rfl
  | append_singleton l x ih =>
    have hsame : l.any (key · = key x) = l.any (id · = id x) := by
      rw [Bool.eq_iff_iff]
      simp only [List.any_eq_true, decide_eq_true_eq, id_eq]
      refine ⟨fun ⟨y, hy, heq⟩ => ⟨y, hy, ?_⟩, fun ⟨y, hy, heq⟩ => ⟨y, hy, heq ▸ rfl⟩⟩
      exact h y (List.mem_append_left _ hy) x (by simp) heq
    rw [firstOccurrences_concat, firstOccurrences_concat, hsame,
      ih fun x hx y hy => h x (List.mem_append_left _ hx) y (List.mem_append_left _ hy)]

end Occurrences

namespace Session

variable {host : CpuType} {archs : List Arch} {all : List Slice}

/-- The slice that is selected if one architecture is asked for alone. -/
def selected? (host : CpuType) (all : List Slice) (arch : Arch) : Option Slice :=
  (Slice.selectOn host all [arch]).toOption

/-- The slices that are selected for each architecture taken alone, in the order of the
architectures. -/
def selections (host : CpuType) (archs : List Arch) (all : List Slice) : List Slice :=
  archs.filterMap (selected? host all)

/-- The slices that are selected for each architecture taken alone, each of them once. -/
def requestedSlices (host : CpuType) (archs : List Arch) (all : List Slice) : List Slice :=
  firstOccurrences id (selections host archs all)

/-- A slice is selected for one of the architectures at the offset. -/
def IsOccupied (host : CpuType) (archs : List Arch) (all : List Slice) (offset : UInt32) : Prop :=
  ∃ s ∈ selections host archs all, s.offset = offset

instance {offset : UInt32} : Decidable (IsOccupied host archs all offset) :=
  inferInstanceAs (Decidable (∃ s ∈ selections host archs all, s.offset = offset))

/-- The slice for the architecture lies where one for an earlier architecture does, but there is a
slice elsewhere that matches the architecture too. -/
def RunsPast (host : CpuType) (before : List Arch) (all : List Slice) (arch : Arch) : Prop :=
  (∃ s, selected? host all arch = some s ∧ IsOccupied host before all s.offset) ∧
    ∃ t ∈ all, arch.covers t.cpu t.sub = true ∧ ¬IsOccupied host before all t.offset

/-- For some architecture the search goes past the slice that is selected. -/
def RunsOn (host : CpuType) (archs : List Arch) (all : List Slice) : Prop :=
  ∃ before arch after, archs = before ++ arch :: after ∧ RunsPast host before all arch

/-- Two slices that are selected lie at one offset. -/
def Collide (host : CpuType) (archs : List Arch) (all : List Slice) : Prop :=
  ∃ s ∈ selections host archs all, ∃ t ∈ selections host archs all, s ≠ t ∧ s.offset = t.offset

instance : Decidable (Collide host archs all) :=
  inferInstanceAs (Decidable (∃ s ∈ selections host archs all, ∃ t ∈ selections host archs all, _))

/-- The first slice that matches is selected. -/
theorem selected?_eq (all : List Slice) (arch : Arch) :
    selected? host all arch = all.find? fun s => arch.covers s.cpu s.sub := by
  cases all with
  | nil => rfl
  | cons first others =>
    rw [selected?, Slice.selectOn_of_ne_nil _ (List.cons_ne_nil _ _) (by simp)]
    cases hfound : (first :: others).find? fun s => arch.covers s.cpu s.sub <;>
      simp [hfound, Except.toOption]

/-- What is selected for an architecture is covered by it. -/
theorem covers_of_selected? {arch : Arch} {s : Slice} (h : selected? host all arch = some s) :
    arch.covers s.cpu s.sub = true := by
  rw [selected?_eq, Slice.find?_covers_eq_some_iff] at h
  obtain ⟨-, -, -, hmatches, -⟩ := h
  exact Arch.covers_eq_true_iff.2 hmatches

/-- Architectures that match one slice select the same one. -/
theorem selected?_eq_of_covers {arch other : Arch} {s : Slice}
    (h : arch.covers s.cpu s.sub = true) (h' : other.covers s.cpu s.sub = true) :
    selected? host all arch = selected? host all other := by
  rw [Arch.covers_eq_true_iff] at h h'
  have hsame (t : Slice) : arch.covers t.cpu t.sub = other.covers t.cpu t.sub := by
    rw [Bool.eq_iff_iff, Arch.covers_eq_true_iff, Arch.covers_eq_true_iff, Arch.Matches,
      Arch.Matches, h.1, h.2, h'.1, h'.2]
  simp only [selected?_eq, hsame]

/-- A further request adds at most one slice. -/
theorem selections_concat (archs : List Arch) (arch : Arch) (all : List Slice) :
    selections host (archs ++ [arch]) all =
      selections host archs all ++ (selected? host all arch).toList := by
  rw [selections, List.filterMap_append]
  cases h : selected? host all arch <;> simp [h, selections]

/-- A request runs on when an earlier one does or it does itself. -/
theorem runsOn_concat_iff {arch : Arch} :
    RunsOn host (archs ++ [arch]) all ↔ RunsOn host archs all ∨ RunsPast host archs all arch := by
  constructor
  · rintro ⟨before, next, after, hsplit, hpast⟩
    rcases List.eq_nil_or_concat after with rfl | ⟨after, last, rfl⟩
    · obtain ⟨rfl, hlast⟩ := List.append_inj' hsplit rfl
      cases hlast
      exact .inr hpast
    · rw [List.concat_eq_append, ← List.cons_append, ← List.append_assoc] at hsplit
      exact .inl ⟨before, next, after, (List.append_inj' hsplit rfl).1, hpast⟩
  · rintro (⟨before, next, after, rfl, hpast⟩ | hpast)
    · exact ⟨before, next, after ++ [arch], by simp, hpast⟩
    · exact ⟨archs, arch, [], rfl, hpast⟩

/-! ### What is taken -/

/-- The slice that is taken for an architecture after others. -/
def taken? (archs : List Arch) (all : List Slice) (arch : Arch) : Option Slice :=
  all.find? fun s => arch.covers s.cpu s.sub &&
    !(matchingSlices archs all).any fun other => other.offset = s.offset

theorem matchingSlices_concat (archs : List Arch) (arch : Arch) (all : List Slice) :
    matchingSlices (archs ++ [arch]) all =
      matchingSlices archs all ++ (taken? archs all arch).toList := by
  rw [matchingSlices, List.foldl_append]
  rfl

/-- What was taken stays taken. -/
theorem mem_matchingSlices_concat {arch : Arch} {t : Slice} (h : t ∈ matchingSlices archs all) :
    t ∈ matchingSlices (archs ++ [arch]) all := by
  rw [matchingSlices_concat]
  exact List.mem_append_left _ h

theorem any_selections (archs : List Arch) (all : List Slice) (offset : UInt32) :
    ((selections host archs all).any fun s => s.offset = offset) =
      decide (IsOccupied host archs all offset) := by
  rw [Bool.eq_iff_iff, decide_eq_true_iff, IsOccupied]
  simp only [List.any_eq_true, decide_eq_true_eq]

/-- After the slices that are selected, the first at each offset, a slice is taken that does not lie
where one of those does. -/
theorem taken?_eq
    (h : matchingSlices archs all = firstOccurrences (·.offset) (selections host archs all))
    (arch : Arch) : taken? archs all arch = all.find? fun s =>
      arch.covers s.cpu s.sub && !decide (IsOccupied host archs all s.offset) := by
  have hoccupied (offset : UInt32) : ((matchingSlices archs all).any fun other =>
      other.offset = offset) = decide (IsOccupied host archs all offset) := by
    rw [Bool.eq_iff_iff, decide_eq_true_iff, IsOccupied, ← exists_mem_firstOccurrences_iff, h]
    simp only [List.any_eq_true, decide_eq_true_eq]
  simp only [taken?, hoccupied]

/-- If the search does not go past the slice that is selected, it finds that one or none. -/
theorem find?_eq_filter_of_not_runsPast {arch : Arch} (h : ¬RunsPast host archs all arch) :
    (all.find? fun s => arch.covers s.cpu s.sub && !decide (IsOccupied host archs all s.offset)) =
      (selected? host all arch).filter fun s => !decide (IsOccupied host archs all s.offset) := by
  cases hselected : selected? host all arch with
  | none =>
    rw [selected?_eq, List.find?_eq_none] at hselected
    rw [Option.filter_none, List.find?_eq_none]
    exact fun t ht hboth => hselected t ht (Bool.and_elim_left hboth)
  | some s =>
    by_cases hs : IsOccupied host archs all s.offset
    · -- as the search does not go past it, it finds nothing
      have hnone : ∀ t ∈ all, arch.covers t.cpu t.sub = true →
          IsOccupied host archs all t.offset := by
        intro t ht hcovers
        by_contra hfree
        exact h ⟨⟨s, hselected, hs⟩, t, ht, hcovers, hfree⟩
      rw [Option.filter_some_neg (by simpa using hs), List.find?_eq_none]
      simpa using hnone
    · -- nothing in front of the selected slice matches, so the search stops there
      rw [selected?_eq, List.find?_eq_some_iff_append] at hselected
      obtain ⟨hcovers, ahead, behind, hsplit, hahead⟩ := hselected
      rw [Option.filter_some_pos (by simpa using hs), List.find?_eq_some_iff_append]
      refine ⟨by simp [hcovers, hs], ahead, behind, hsplit, fun t ht => ?_⟩
      simp [hahead t ht]

/-- If no search runs on, the session takes the slices that are selected, the first at each
offset. -/
theorem matchingSlices_eq_of_not_runsOn (h : ¬RunsOn host archs all) :
    matchingSlices archs all = firstOccurrences (·.offset) (selections host archs all) := by
  induction archs using List.reverseRecOn with
  | nil => rfl
  | append_singleton archs arch ih =>
    rw [runsOn_concat_iff, not_or] at h
    obtain ⟨hbefore, hlast⟩ := h
    rw [matchingSlices_concat, taken?_eq (ih hbefore), find?_eq_filter_of_not_runsPast hlast,
      selections_concat, ih hbefore]
    cases selected? host all arch with
    | none => simp
    | some s =>
      rw [Option.toList_some, firstOccurrences_concat, any_selections]
      by_cases hs : IsOccupied host archs all s.offset <;> simp [hs]

/-- If a search runs on, the session takes a slice that is selected for no architecture. -/
theorem exists_mem_matchingSlices_of_runsOn (h : RunsOn host archs all) :
    ∃ t ∈ matchingSlices archs all, ∀ arch, selected? host all arch ≠ some t := by
  induction archs using List.reverseRecOn with
  | nil =>
    obtain ⟨before, arch, after, hsplit, -⟩ := h
    simp at hsplit
  | append_singleton archs arch ih =>
    by_cases hbefore : RunsOn host archs all
    · obtain ⟨t, ht, hother⟩ := ih hbefore
      exact ⟨t, mem_matchingSlices_concat ht, hother⟩
    · -- the last search is the first to run on, so that it starts from the selected slices
      obtain ⟨⟨s, hs, hoccupied⟩, u, hu, hcovers, hfree⟩ :=
        (runsOn_concat_iff.1 h).resolve_left hbefore
      have hsome : (taken? archs all arch).isSome = true := by
        rw [taken?_eq (matchingSlices_eq_of_not_runsOn hbefore), List.find?_isSome]
        exact ⟨u, hu, by simp [hcovers, hfree]⟩
      obtain ⟨t, ht⟩ := Option.isSome_iff_exists.1 hsome
      refine ⟨t, by simp [matchingSlices_concat, ht], fun other hother => ?_⟩
      -- what is selected for another architecture is selected for this one, and so it is occupied
      rw [taken?_eq (matchingSlices_eq_of_not_runsOn hbefore)] at ht
      have htaken : arch.covers t.cpu t.sub = true ∧ ¬IsOccupied host archs all t.offset := by
        simpa using List.find?_some ht
      rw [selected?_eq_of_covers (covers_of_selected? hother) htaken.1, hs] at hother
      cases hother
      exact htaken.2 hoccupied

/-- The session takes the requested slices if and only if no search runs on and no two of them lie
at one offset. -/
theorem matchingSlices_eq_requestedSlices_iff :
    matchingSlices archs all = requestedSlices host archs all ↔
      ¬RunsOn host archs all ∧ ¬Collide host archs all := by
  constructor
  · intro h
    have hrunsOn : ¬RunsOn host archs all := by
      intro hrunsOn
      obtain ⟨t, ht, hother⟩ := exists_mem_matchingSlices_of_runsOn hrunsOn
      rw [h, requestedSlices, mem_firstOccurrences_id_iff] at ht
      obtain ⟨arch, -, harch⟩ := List.mem_filterMap.1 ht
      exact hother arch harch
    refine ⟨hrunsOn, ?_⟩
    -- no two slices that are taken lie at one offset
    rintro ⟨s, hs, t, ht, hne, hoffset⟩
    have hnodup : ((requestedSlices host archs all).map (·.offset)).Nodup := by
      rw [← h, matchingSlices_eq_of_not_runsOn hrunsOn]
      exact nodup_map_firstOccurrences _ _
    rw [← mem_firstOccurrences_id_iff] at hs ht
    exact hne (List.inj_on_of_nodup_map hnodup hs ht hoffset)
  · rintro ⟨hrunsOn, hcollide⟩
    rw [matchingSlices_eq_of_not_runsOn hrunsOn]
    refine firstOccurrences_eq_id fun s hs t ht hoffset => ?_
    by_contra hne
    exact hcollide ⟨s, hs, t, ht, hne, hoffset⟩

/-- Where two requested slices lie at one offset, the second is lost. -/
example :
    let i386 : Slice := ⟨CpuType.x86, 3, 48, 28, 0⟩
    let armv7 : Slice := ⟨CpuType.arm, 9, 48, 28, 0⟩
    requestedSlices .x86_64 [i386.arch, armv7.arch] [i386, armv7] = [i386, armv7] ∧
      matchingSlices [i386.arch, armv7.arch] [i386, armv7] = [i386] := by
  decide

/-! ### Repeated architectures -/

/-- What is taken for further architectures depends on what was taken before them only. -/
theorem matchingSlices_append_congr {archs others : List Arch}
    (h : matchingSlices archs all = matchingSlices others all) (after : List Arch) :
    matchingSlices (archs ++ after) all = matchingSlices (others ++ after) all := by
  induction after using List.reverseRecOn with
  | nil => rwa [List.append_nil, List.append_nil]
  | append_singleton after arch ih =>
    rw [← List.append_assoc, ← List.append_assoc, matchingSlices_concat, matchingSlices_concat,
      taken?, taken?, ih]

/-- If no search runs on, nothing more is taken for an architecture that stands before. -/
theorem matchingSlices_concat_of_mem {arch : Arch} (h : ¬RunsOn host (archs ++ [arch]) all)
    (hmem : arch ∈ archs) : matchingSlices (archs ++ [arch]) all = matchingSlices archs all := by
  rw [runsOn_concat_iff, not_or] at h
  obtain ⟨hbefore, hlast⟩ := h
  rw [matchingSlices_concat, taken?_eq (matchingSlices_eq_of_not_runsOn hbefore),
    find?_eq_filter_of_not_runsPast hlast]
  cases hselected : selected? host all arch with
  | none => simp
  | some s =>
    have hs : IsOccupied host archs all s.offset :=
      ⟨s, List.mem_filterMap.2 ⟨arch, hmem, hselected⟩, rfl⟩
    simp [hs]

/-- A search that runs on does so for more architectures, too. -/
theorem RunsOn.append (h : RunsOn host archs all) (more : List Arch) :
    RunsOn host (archs ++ more) all := by
  obtain ⟨before, arch, after, rfl, hpast⟩ := h
  exact ⟨before, arch, after ++ more, by simp, hpast⟩

/-- A request that repeats an earlier one changes nothing. -/
theorem matchingSlices_append_cons_of_mem {before after : List Arch} {arch : Arch}
    (h : ¬RunsOn host (before ++ arch :: after) all) (hmem : arch ∈ before) :
    matchingSlices (before ++ arch :: after) all = matchingSlices (before ++ after) all := by
  rw [List.append_cons] at h ⊢
  have hrunsOn : ¬RunsOn host (before ++ [arch]) all := fun hrunsOn => h (hrunsOn.append after)
  exact matchingSlices_append_congr (matchingSlices_concat_of_mem hrunsOn hmem) after

/-! ### What a session reads -/

/-- If a slice matches an architecture, slices are taken and read. -/
theorem selectSlices_eq_matchingSlices {contents : Contents}
    (hslices : Slice.ofContents contents (some contents.size) = .ok all)
    (hmatch : ∃ arch ∈ archs, ∃ s ∈ all, arch.covers s.cpu s.sub = true) (name : Text) :
    selectSlices host archs name contents = .ok (matchingSlices archs all) := by
  obtain ⟨arch, harch, s, hs, hcovers⟩ := hmatch
  rcases selectSlices_cases hslices host archs name with ⟨rfl, -⟩ | ⟨-, hnone, -⟩ | ⟨-, -, h⟩
  · simp at harch
  · have := (matchingSlices_eq_nil_iff archs all).1 hnone arch harch s hs
    simp [hcovers] at this
  · exact h

/-- The slices that a session reads of a file, if one of them matches an architecture asked for.
They are the requested slices if and only if no search runs on to another slice that matches, since
the selected one lies where one was taken, and no two requested slices lie at one offset. If no
search runs on, it does not matter that an architecture is asked for again. -/
theorem selectSlices_eq_requestedSlices_iff {contents : Contents} {archs : List Arch}
    {all : List Slice} (hslices : Slice.ofContents contents (some contents.size) = .ok all)
    (hmatch : ∃ arch ∈ archs, ∃ s ∈ all, arch.covers s.cpu s.sub = true) (name : Text) :
    (selectSlices host archs name contents = .ok (requestedSlices host archs all) ↔
      ¬RunsOn host archs all ∧ ¬Collide host archs all) ∧
    (¬RunsOn host archs all →
      ∀ before arch after, archs = before ++ arch :: after → arch ∈ before →
        selectSlices host archs name contents =
          selectSlices host (before ++ after) name contents) := by
  rw [selectSlices_eq_matchingSlices hslices hmatch]
  refine ⟨by rw [Except.ok.injEq, matchingSlices_eq_requestedSlices_iff], ?_⟩
  rintro hrunsOn before arch after rfl hmem
  -- the architecture that is left out is still asked for
  have hmatch' : ∃ other ∈ before ++ after, ∃ s ∈ all, other.covers s.cpu s.sub = true := by
    obtain ⟨other, hother, hs⟩ := hmatch
    refine ⟨other, ?_, hs⟩
    simp only [List.mem_append, List.mem_cons] at hother ⊢
    rcases hother with hother | rfl | hother
    · exact .inl hother
    · exact .inl hmem
    · exact .inr hother
  rw [selectSlices_eq_matchingSlices hslices hmatch',
    matchingSlices_append_cons_of_mem hrunsOn hmem]

/-- If no architecture matches two slices, no search runs on. -/
theorem not_runsOn_of_unique (h : ∀ arch ∈ archs, ∀ s ∈ all, ∀ t ∈ all,
    arch.covers s.cpu s.sub = true → arch.covers t.cpu t.sub = true → s = t) :
    ¬RunsOn host archs all := by
  rintro ⟨before, arch, after, rfl, ⟨s, hs, hoccupied⟩, t, ht, hcovers, hfree⟩
  have hmem : s ∈ all := by
    rw [selected?_eq] at hs
    exact List.mem_of_find?_eq_some hs
  rw [h arch (by simp) s hmem t ht (covers_of_selected? hs) hcovers] at hoccupied
  exact hfree hoccupied

/-- An archive of two images without load commands, with the slices that its table states. -/
private def pairOf (first second : Slice) : Contents :=
  let image (s : Slice) : Text :=
    [0xFEEDFACE, s.cpu, s.sub, 2, 0, 0, 0].flatMap ByteOrder.little.bytes32
  (ByteOrder.big.bytes32 Slice.archiveMagic ++ ByteOrder.big.bytes32 2 ++ first.record ++
    second.record ++ image first ++ image second).toArray

/-- Both images of an archive are asked for, and one of them twice. -/
theorem selectSlices_pairOf :
    let i386 : Slice := ⟨CpuType.x86, 3, 48, 28, 0⟩
    let armv7 : Slice := ⟨CpuType.arm, 9, 76, 28, 0⟩
    let archs : List Arch := [armv7.arch, i386.arch, armv7.arch]
    let file := pairOf i386 armv7
    Slice.ofContents file (some file.size) = .ok [i386, armv7] ∧
      (∃ arch ∈ archs, ∃ s ∈ [i386, armv7], arch.covers s.cpu s.sub = true) ∧
      requestedSlices .x86_64 archs [i386, armv7] = [armv7, i386] ∧
      selectSlices .x86_64 archs [] file = .ok [armv7, i386] ∧
      selectSlices .x86_64 archs [] file =
        selectSlices .x86_64 [armv7.arch, i386.arch] [] file := by
  intro i386 armv7 archs file
  have hslices : Slice.ofContents file (some file.size) = .ok [i386, armv7] :=
    Except.toOption_eq_some_iff.1 (by decide +kernel)
  have hmatch : ∃ arch ∈ archs, ∃ s ∈ [i386, armv7], arch.covers s.cpu s.sub = true := by decide
  have hrunsOn : ¬RunsOn .x86_64 archs [i386, armv7] := not_runsOn_of_unique (by decide)
  have hcollide : ¬Collide .x86_64 archs [i386, armv7] := by decide
  have hrequested : requestedSlices .x86_64 archs [i386, armv7] = [armv7, i386] := by decide
  obtain ⟨hiff, hrepeated⟩ := selectSlices_eq_requestedSlices_iff hslices hmatch []
  refine ⟨hslices, hmatch, hrequested, ?_, ?_⟩
  · rw [← hrequested]
    exact hiff.2 ⟨hrunsOn, hcollide⟩
  · exact hrepeated hrunsOn [armv7.arch, i386.arch] armv7.arch [] rfl (by decide)

/-- An architecture that is asked for twice takes two images that differ in capability bits, though
the first is selected both times. -/
theorem selectSlices_variants :
    let plain : Slice := ⟨CpuType.x86, 3, 48, 28, 0⟩
    let capable : Slice := ⟨CpuType.x86, 0x80000003, 76, 28, 0⟩
    let file := pairOf plain capable
    Slice.ofContents file (some file.size) = .ok [plain, capable] ∧
      selectSlices .x86_64 [plain.arch] [] file = .ok [plain] ∧
      requestedSlices .x86_64 [plain.arch, plain.arch] [plain, capable] = [plain] ∧
      selectSlices .x86_64 [plain.arch, plain.arch] [] file = .ok [plain, capable] := by
  intro plain capable file
  have hslices : Slice.ofContents file (some file.size) = .ok [plain, capable] :=
    Except.toOption_eq_some_iff.1 (by decide +kernel)
  refine ⟨hslices, ?_, by decide, ?_⟩
  · rw [selectSlices_eq_matchingSlices hslices (by decide)]
    exact congrArg Except.ok (by decide)
  · rw [selectSlices_eq_matchingSlices hslices (by decide)]
    exact congrArg Except.ok (by decide)

end Session

end ObjcLens
