import Mathlib
import ObjcLens.Proofs.Fixups.Word

/-!
# Looking up and listing pointers

Chains may run beyond their pages and join others, so that one location is visited several times.
The lists of the segments keep a pointer for every visit, while a look-up gives the last one. What
is found at a location only depends on the layout of the pointers there: if all segments have one
layout, every visit finds the same pointer, and looking up and listing agree.

## Main results

* `FollowsChains.eq_of_location_eq`: a location holds one pointer.
* `at?_eq_some_iff`: what is looked up is what is listed.
* `lookup_eq_listing`: looking up and listing agree.
-/

namespace ObjcLens.ChainedFixups

/-- All segments that have chains use the same layout of pointers. -/
def HasOneFormat (chained : ChainedFixups) : Prop :=
  ∀ s ∈ chained.segments, ∀ t ∈ chained.segments, s.starts.isSome = true →
    t.starts.isSome = true → s.format = t.format

instance (chained : ChainedFixups) : Decidable chained.HasOneFormat :=
  inferInstanceAs (Decidable (∀ s ∈ chained.segments, ∀ t ∈ chained.segments, _))

variable {order : ByteOrder} {payload : Text} {image : ImageReader} {chained : ChainedFixups}

/-- With one layout, a location holds one pointer, however often it is visited. -/
theorem FollowsChains.eq_of_location_eq (h : FollowsChains order payload image chained)
    (hformat : chained.HasOneFormat) {fixup fixup' : Fixup}
    (hmem : fixup ∈ chained.fixups.flatten) (hmem' : fixup' ∈ chained.fixups.flatten)
    (hlocation : fixup.location = fixup'.location) : fixup = fixup' := by
  obtain ⟨segment, hsegment, hstarts, place, next, hlink⟩ := h.exists_link fixup hmem
  obtain ⟨segment', hsegment', hstarts', place', next', hlink'⟩ := h.exists_link fixup' hmem'
  obtain ⟨_, -, hfrom⟩ := hlink.exists_isFrom
  obtain ⟨_, -, hfrom'⟩ := hlink'.exists_isFrom
  obtain rfl : place = place' := by
    rw [← hfrom.location_eq, hlocation, hfrom'.location_eq]
  rw [hformat segment hsegment segment' hsegment' hstarts hstarts'] at hlink
  exact (hlink.unique hlink').1

/-- What is looked up was found at the location. -/
theorem mem_of_at?_eq_some {offset : UInt64} {fixup : Fixup}
    (h : chained.at? offset = some fixup) :
    fixup ∈ chained.fixups.flatten ∧ fixup.location = offset :=
  ⟨List.mem_reverse.1 (List.mem_of_find?_eq_some h), by simpa using List.find?_some h⟩

/-- Something is found at the location of every pointer. -/
theorem exists_at?_eq_some {fixup : Fixup} (h : fixup ∈ chained.fixups.flatten) :
    ∃ last, chained.at? fixup.location = some last := by
  rw [← Option.isSome_iff_exists, at?, List.find?_isSome]
  exact ⟨fixup, List.mem_reverse.2 h, decide_eq_true rfl⟩

/-- What is looked up is what is listed. -/
theorem at?_eq_some_iff (h : FollowsChains order payload image chained)
    (hformat : chained.HasOneFormat) {offset : UInt64} {fixup : Fixup} :
    chained.at? offset = some fixup ↔
      fixup ∈ chained.fixups.flatten ∧ fixup.location = offset := by
  refine ⟨mem_of_at?_eq_some, ?_⟩
  rintro ⟨hmem, rfl⟩
  obtain ⟨last, hlast⟩ := exists_at?_eq_some hmem
  obtain ⟨hmem', hlocation⟩ := mem_of_at?_eq_some hlast
  rw [hlast, h.eq_of_location_eq hformat hmem' hmem hlocation]

/-- The list of all pointers has those of the segments, each as often. -/
theorem all_perm (chained : ChainedFixups) : chained.all.Perm chained.fixups.flatten :=
  Quicksort.sort_perm _ _

theorem mem_all_iff {fixup : Fixup} :
    fixup ∈ chained.all ↔ fixup ∈ chained.fixups.flatten :=
  chained.all_perm.mem_iff

/-- The list of all pointers is ordered by their locations. -/
theorem pairwise_all (chained : ChainedFixups) :
    chained.all.Pairwise fun a b => a.location ≤ b.location := by
  have htrans (a b c : Fixup) (hab : decide (a.location ≤ b.location) = true)
      (hbc : decide (b.location ≤ c.location) = true) :
      decide (a.location ≤ c.location) = true :=
    decide_eq_true (UInt64.le_trans (of_decide_eq_true hab) (of_decide_eq_true hbc))
  have htotal (a b : Fixup) :
      (decide (a.location ≤ b.location) || decide (b.location ≤ a.location)) = true := by
    rw [Bool.or_eq_true, decide_eq_true_iff, decide_eq_true_iff]
    exact UInt64.le_total _ _
  exact (Quicksort.pairwise_sort htrans htotal chained.fixups.flatten).imp of_decide_eq_true

/-- Looking up and listing agree if all chains have the same layout. The list of all pointers is
that of the segments in the order of the locations; each of its pointers is found at its location,
nothing is found elsewhere, and the bound pointers that are found are those of the list. -/
theorem lookup_eq_listing (h : parse order payload image = .ok chained)
    (hformat : chained.HasOneFormat) :
    (chained.all.Pairwise fun a b => a.location ≤ b.location) ∧
      chained.all.Perm chained.fixups.flatten ∧
      (∀ fixup ∈ chained.all, chained.at? fixup.location = some fixup) ∧
      (∀ offset, (∀ fixup ∈ chained.all, fixup.location ≠ offset) →
        chained.at? offset = none) ∧
      ∀ offset b, chained.bindAt? offset = some b ↔
        .bind b ∈ chained.all ∧ b.location = offset := by
  have hfind (offset : UInt64) (fixup : Fixup) : chained.at? offset = some fixup ↔
      fixup ∈ chained.all ∧ fixup.location = offset := by
    rw [at?_eq_some_iff (parse_eq_ok_iff.1 h) hformat, mem_all_iff]
  refine ⟨chained.pairwise_all, chained.all_perm, fun fixup hfixup => ?_, fun offset hnone => ?_,
    fun offset b => ?_⟩
  · exact (hfind _ _).2 ⟨hfixup, rfl⟩
  · rw [Option.eq_none_iff_forall_ne_some]
    intro fixup hfixup
    obtain ⟨hmem, hlocation⟩ := (hfind _ _).1 hfixup
    exact hnone fixup hmem hlocation
  · have hbind : chained.bindAt? offset = some b ↔ chained.at? offset = some (.bind b) := by
      rw [bindAt?]
      cases chained.at? offset with
      | none => simp
      | some fixup => cases fixup <;> simp
    rw [hbind, hfind]
    rfl

/-- A payload with one import and two segments, of which the first one has two pages of eight bytes
and the second one no chains. -/
private def twoPages : Text :=
  let words (ns : List UInt32) := ns.flatMap ByteOrder.little.bytes32
  let halves (ns : List UInt16) := ns.flatMap fun n => ByteOrder.little.bytes 2 n.toNat
  words [0, 28, 66, 70, 1, 1, 0] ++ words [2, 12, 0] ++ words [26] ++ halves [8, 2] ++
    words [0, 0, 0] ++ halves [2, 0, 0] ++ words [1] ++ Text.ofString "_f" ++ [0]

/-- The chain of the first page runs into that of the second one. -/
private def joinedChains : ImageReader :=
  ImageReader.ofContents ([0x0010000000000000, 0x8000000000000000].flatMap
    ByteOrder.little.bytes64).toArray

/-- The bound pointer at the start of the second page is visited twice. -/
theorem lookup_joinedChains : ∃ chained, parse .little twoPages joinedChains = .ok chained ∧
    chained.HasOneFormat ∧ chained.fixups.map (·.map (·.location)) = [[0, 8, 8], []] ∧
    ∃ b, .bind b ∈ chained.all ∧ b.location = 8 ∧ chained.bindAt? 8 = some b := by
  have hparse : (parse .little twoPages joinedChains).toOption.map (fun chained =>
      (decide chained.HasOneFormat, chained.fixups.map (·.map (·.location)),
        (chained.bindAt? 8).isSome)) = some (true, [[0, 8, 8], []], true) := by decide +kernel
  cases h : parse .little twoPages joinedChains with
  | error e =>
    rw [h] at hparse
    cases hparse
  | ok chained =>
    rw [h] at hparse
    obtain ⟨hformat, hlocations, hbind⟩ : _ ∧ _ ∧ _ := by
      simpa only [Except.toOption, Option.map_some, Option.some.injEq, Prod.mk.injEq] using hparse
    have hformat := of_decide_eq_true hformat
    obtain ⟨b, hb⟩ := Option.isSome_iff_exists.1 hbind
    -- two fixups share the location eight; what is found is one of the listing
    obtain ⟨hmem, hlocation⟩ := ((lookup_eq_listing h hformat).2.2.2.2 8 b).1 hb
    exact ⟨chained, rfl, hformat, hlocations, b, hmem, hlocation, hb⟩

end ObjcLens.ChainedFixups
