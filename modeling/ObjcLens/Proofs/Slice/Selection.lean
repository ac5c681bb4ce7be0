import Mathlib
import ObjcLens.Slice

/-!
# Which slice is selected

Of the slices of a file one is selected. If architectures are asked for, those are tried in order,
and of the slices that match an architecture the first one counts. If none is asked for, slices are
compared by the width of their addresses and then by their processor. `Slice.IsRequested` and
`Slice.IsPreferred` say which slice that is by its place in the list, without searching or
scoring.

## Main results

* `Slice.score_lt_score_iff`: scores are compared like preferences.
* `Slice.isPreferred_best`: the slice with the best score is preferred.
* `Slice.selectOn_eq_ok_iff`, `Slice.selectOn_eq_error_iff`: when a slice is selected, and when
  none is.
* `Slice.selectOn_selects`: both together, with the class of the error.
-/

namespace ObjcLens

/-- The slice is for the architecture: the processors agree, and so do the subtypes but for the
capability bits above the lower 24. -/
def Arch.Matches (arch : Arch) (s : Slice) : Prop :=
  arch.cpu = s.cpu ∧ arch.sub.toNat % 2 ^ 24 = s.sub.toNat % 2 ^ 24

/-- The subtype without its capability bits is what the lower 24 bits say. -/
theorem CpuSubtype.toNat_base (sub : CpuSubtype) : sub.base.toNat = sub.toNat % 2 ^ 24 := by
  rw [base, UInt32.toNat_and]
  exact Nat.and_two_pow_sub_one_eq_mod _ 24

/-- The test of an architecture decides whether a slice matches. -/
theorem Arch.covers_eq_true_iff {arch : Arch} {s : Slice} :
    arch.covers s.cpu s.sub = true ↔ arch.Matches s := by
  rw [covers, Matches, Bool.and_eq_true, decide_eq_true_iff, decide_eq_true_iff,
    ← CpuSubtype.toNat_base, ← CpuSubtype.toNat_base, UInt32.toNat_inj]

namespace Slice

variable {host : CpuType} {slices : List Slice} {wanted : List Arch} {s : Slice}

/-! ### The preferred slice -/

/-- How slices are preferred on a machine: first those with 64-bit addresses, among these and among
the others those for the processor of the machine. -/
def preference (host : CpuType) (s : Slice) : Bool ×ₗ Bool := toLex (s.cpu.is64Bit, s.cpu = host)

/-- The slice is the first of those that no slice is preferred to. -/
def IsPreferred (host : CpuType) (slices : List Slice) (s : Slice) : Prop :=
  ∃ before after, slices = before ++ s :: after ∧
    (∀ t ∈ before, t.preference host < s.preference host) ∧
    ∀ t ∈ after, t.preference host ≤ s.preference host

/-- Scores are compared like preferences. -/
theorem score_lt_score_iff {a b : Slice} :
    a.score host < b.score host ↔ a.preference host < b.preference host := by
  unfold score preference
  rw [Prod.Lex.toLex_lt_toLex]
  by_cases ha : a.cpu = host <;> by_cases hb : b.cpu = host <;>
    cases a.cpu.is64Bit <;> cases b.cpu.is64Bit <;> simp [ha, hb]

/-- Only one slice is preferred. -/
theorem IsPreferred.unique {t : Slice} (hs : IsPreferred host slices s)
    (ht : IsPreferred host slices t) : s = t := by
  obtain ⟨before, after, rfl, hbefore, hafter⟩ := hs
  obtain ⟨before', after', heq, hbefore', hafter'⟩ := ht
  rcases List.append_eq_append_iff.1 heq with ⟨gap, rfl, hrest⟩ | ⟨gap, rfl, hrest⟩
  · -- if the second slice stood further behind, the first one would be less preferred
    cases gap with
    | nil => exact (List.cons.inj hrest).1
    | cons first gap =>
      obtain ⟨rfl, rfl⟩ := List.cons.inj hrest
      exact absurd (hbefore' s (by simp)) (hafter t (by simp)).not_gt
  · cases gap with
    | nil => exact (List.cons.inj hrest).1.symm
    | cons first gap =>
      obtain ⟨rfl, rfl⟩ := List.cons.inj hrest
      exact absurd (hbefore t (by simp)) (hafter' s (by simp)).not_gt

/-- The slice with the best score is preferred. -/
theorem isPreferred_best (host : CpuType) (first : Slice) (others : List Slice) :
    IsPreferred host (first :: others) (best host first others) := by
  -- the best slice so far is preferred among those that were compared
  induction others using List.reverseRecOn with
  | nil => exact ⟨[], [], rfl, by simp, by simp⟩
  | append_singleton others s ih =>
    have hbest : best host first (others ++ [s]) =
        if (best host first others).score host < s.score host then s
        else best host first others := by
      rw [best, List.foldl_append]
      rfl
    obtain ⟨before, after, hsplit, hbefore, hafter⟩ := ih
    rw [hbest, ← List.cons_append, hsplit]
    split
    · rename_i hbetter
      rw [score_lt_score_iff] at hbetter
      refine ⟨before ++ best host first others :: after, [], rfl, ?_, by simp⟩
      intro t ht
      rcases List.mem_append.1 ht with ht | ht
      · exact (hbefore t ht).trans hbetter
      · rcases List.mem_cons.1 ht with rfl | ht
        · exact hbetter
        · exact (hafter t ht).trans_lt hbetter
    · rename_i hworse
      rw [score_lt_score_iff, not_lt] at hworse
      refine ⟨before, after ++ [s], by simp, hbefore, ?_⟩
      intro t ht
      rcases List.mem_append.1 ht with ht | ht
      · exact hafter t ht
      · rw [List.mem_singleton.1 ht]
        exact hworse

/-! ### The requested slice -/

/-- The slice is the first that matches the first architecture asked for that any slice matches. -/
def IsRequested (slices : List Slice) (wanted : List Arch) (s : Slice) : Prop :=
  ∃ arch before after, wanted = before ++ arch :: after ∧
    (∀ other ∈ before, ∀ t ∈ slices, ¬other.Matches t) ∧
    ∃ ahead behind, slices = ahead ++ s :: behind ∧ arch.Matches s ∧
      ∀ t ∈ ahead, ¬arch.Matches t

/-- The first slice that an architecture covers is the first that matches it. -/
theorem find?_covers_eq_some_iff {arch : Arch} :
    (slices.find? fun t => arch.covers t.cpu t.sub) = some s ↔
      ∃ ahead behind, slices = ahead ++ s :: behind ∧ arch.Matches s ∧
        ∀ t ∈ ahead, ¬arch.Matches t := by
  simp only [List.find?_eq_some_iff_append, Bool.not_eq_true', ← Bool.not_eq_true,
    Arch.covers_eq_true_iff]
  constructor
  · rintro ⟨hmatches, ahead, behind, hsplit, hahead⟩
    exact ⟨ahead, behind, hsplit, hmatches, hahead⟩
  · rintro ⟨ahead, behind, hsplit, hmatches, hahead⟩
    exact ⟨hmatches, ahead, behind, hsplit, hahead⟩

/-- A search for an architecture fails exactly when no slice matches. -/
theorem find?_covers_eq_none_iff {arch : Arch} :
    (slices.find? fun t => arch.covers t.cpu t.sub) = none ↔ ∀ t ∈ slices, ¬arch.Matches t := by
  simp only [List.find?_eq_none, Arch.covers_eq_true_iff]

/-- The search through the architectures finds the requested slice. -/
theorem findSome?_eq_some_iff :
    (wanted.findSome? fun arch => slices.find? fun t => arch.covers t.cpu t.sub) = some s ↔
      IsRequested slices wanted s := by
  simp only [List.findSome?_eq_some_iff, find?_covers_eq_some_iff, find?_covers_eq_none_iff]
  constructor
  · rintro ⟨before, arch, after, hsplit, hfound, hbefore⟩
    exact ⟨arch, before, after, hsplit, hbefore, hfound⟩
  · rintro ⟨arch, before, after, hsplit, hbefore, hfound⟩
    exact ⟨before, arch, after, hsplit, hfound, hbefore⟩

/-! ### The selected slice -/

/-- Where there are slices and architectures are asked for, the requested slice is searched for. -/
theorem selectOn_of_ne_nil (host : CpuType) (hslices : slices ≠ []) (hwanted : wanted ≠ []) :
    selectOn host slices wanted =
      match wanted.findSome? fun arch => slices.find? fun t => arch.covers t.cpu t.sub with
      | some s => .ok s
      | none => .error (.noMatchingArch (wanted.map (·.name))) := by
  obtain ⟨first, others, rfl⟩ := List.exists_cons_of_ne_nil hslices
  obtain ⟨arch, rest, rfl⟩ := List.exists_cons_of_ne_nil hwanted
  rfl

/-- A slice is selected if it is the preferred one where nothing is asked for, or the requested
one. -/
theorem selectOn_eq_ok_iff : selectOn host slices wanted = .ok s ↔
    (wanted = [] ∧ IsPreferred host slices s) ∨ IsRequested slices wanted s := by
  cases slices with
  | nil => simp [selectOn, IsPreferred, IsRequested]
  | cons first others =>
    by_cases hwanted : wanted = []
    · subst hwanted
      have hbest := isPreferred_best host first others
      have hnone : ¬IsRequested (first :: others) [] s := by simp [IsRequested]
      rw [selectOn, Except.ok.injEq, or_iff_left hnone, and_iff_right rfl]
      exact ⟨fun h => h ▸ hbest, hbest.unique⟩
    · rw [selectOn_of_ne_nil host (List.cons_ne_nil _ _) hwanted, ← findSome?_eq_some_iff,
        or_iff_right fun h => hwanted h.1]
      cases wanted.findSome? fun arch =>
        (first :: others).find? fun t => arch.covers t.cpu t.sub <;> simp

/-- No slice is selected if there is none, or if architectures are asked for and no slice matches
one of them. -/
theorem selectOn_eq_error_iff {error : Error} : selectOn host slices wanted = .error error ↔
    error = .noMatchingArch (if slices = [] then [] else wanted.map (·.name)) ∧
      (slices = [] ∨ (wanted ≠ [] ∧ ∀ arch ∈ wanted, ∀ t ∈ slices, ¬arch.Matches t)) := by
  cases slices with
  | nil => simp [selectOn, eq_comm]
  | cons first others =>
    by_cases hwanted : wanted = []
    · simp [hwanted, selectOn]
    · have hnone : (wanted.findSome? fun arch =>
          (first :: others).find? fun t => arch.covers t.cpu t.sub) = none ↔
          ∀ arch ∈ wanted, ∀ t ∈ first :: others, ¬arch.Matches t := by
        simp only [List.findSome?_eq_none_iff, find?_covers_eq_none_iff]
      rw [selectOn_of_ne_nil host (List.cons_ne_nil _ _) hwanted, ← hnone]
      cases wanted.findSome? fun arch =>
        (first :: others).find? fun t => arch.covers t.cpu t.sub <;> simp [hwanted, eq_comm]

/-- The slice that is selected, on a machine with any processor. If no architecture is asked for, it
is the first of the slices that are preferred to none: 64-bit addresses come before other ones, and
then the processor of the machine before others. Else it is, for the first architecture that some
slice matches but for capability bits, the first slice that matches it. None is selected, with an
error that says so, if there are no slices or none matches an architecture that is asked for, and
only then. -/
theorem selectOn_selects (host : CpuType) (slices : List Slice) (wanted : List Arch) :
    (∀ s, selectOn host slices wanted = .ok s ↔
      (wanted = [] ∧ IsPreferred host slices s) ∨ IsRequested slices wanted s) ∧
    ((∃ error, selectOn host slices wanted = .error error) ↔
      slices = [] ∨ (wanted ≠ [] ∧ ∀ arch ∈ wanted, ∀ s ∈ slices, ¬arch.Matches s)) ∧
    ∀ error, selectOn host slices wanted = .error error →
      error.kind = .noMatchingArch := by
  refine ⟨fun s => selectOn_eq_ok_iff, ?_, ?_⟩
  · simp only [selectOn_eq_error_iff, exists_eq_left]
  · intro error herror
    obtain ⟨rfl, -⟩ := selectOn_eq_error_iff.1 herror
    rfl

/-- Without a request, the only slice with 64-bit addresses is selected, wherever it stands. -/
example : selectOn CpuType.x86
    [⟨CpuType.x86, 3, 0, 4, 0⟩, ⟨CpuType.arm64, 0, 4, 4, 0⟩, ⟨CpuType.arm, 9, 8, 4, 0⟩] [] =
      .ok ⟨CpuType.arm64, 0, 4, 4, 0⟩ := by
  rfl

end Slice

end ObjcLens
