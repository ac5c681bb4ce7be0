import ObjcLens.Proofs.Decoder.Bounded
import ObjcLens.Proofs.Session.FirstSeen

/-!
# The jobs of a load side by side

A load runs its jobs side by side, and they share the decoder of the session. Which encodings are
decoded, and when, depends on how the jobs interleave. What the session finds does not.

## Main results

* `core_foldl_merge`: results are merged without a look at the decoder, the failures or the log.
* `sameFindings_of_reaches`: a load finds the same as if it ran its jobs one after the other, each
  with a decoder that remembers nothing.
-/

namespace ObjcLens

namespace Session

variable {a b s : Session}

/-- Two sessions have found the same. -/
structure SameFindings (a b : Session) : Prop where
  images : a.images = b.images
  protocols : a.model.protocols = b.model.protocols
  classes : a.model.classes = b.model.classes
  categories : a.model.categories = b.model.categories
  protocolIndex : a.protocolIndex = b.protocolIndex
  classIndex : a.classIndex = b.classIndex
  categoryIndex : a.categoryIndex = b.categoryIndex
  sources : a.sources = b.sources
  notes : a.notes = b.notes
  skipped : a.skipped = b.skipped
  flags : a.flags = b.flags

/-- The session without its decoder, its failures and its log. -/
def core (s : Session) : Session := { s with decoder := .empty 0, failures := [], log := [] }

/-- Sessions with the same core have the same findings. -/
theorem sameFindings_of_core_eq (h : a.core = b.core) : SameFindings a b where
  images := (congrArg images h :)
  protocols := congrArg (·.model.protocols) h
  classes := congrArg (·.model.classes) h
  categories := congrArg (·.model.categories) h
  protocolIndex := (congrArg protocolIndex h :)
  classIndex := (congrArg classIndex h :)
  categoryIndex := (congrArg categoryIndex h :)
  sources := (congrArg sources h :)
  notes := (congrArg notes h :)
  skipped := (congrArg skipped h :)
  flags := (congrArg flags h :)

theorem core_foldl {α : Type} {add : Session → α → Session}
    (hadd : ∀ s x, (add s x).core = (add s.core x).core) (s : Session) (l : List α) :
    (l.foldl add s).core = (l.foldl add s.core).core := by
  induction l generalizing s with
  | nil => rfl
  | cons x l ih =>
    rw [List.foldl_cons, List.foldl_cons, ih (add s x), ih (add s.core x), hadd]

theorem core_claim (s : Session) (kind : EntityKind) (name source : Text) :
    (s.claim kind name source).1.core = (s.core.claim kind name source).1.core ∧
      (s.claim kind name source).2 = (s.core.claim kind name source).2 := by
  simp only [claim, core]
  split <;> exact ⟨rfl, rfl⟩

/-- A record is kept in the core as it is kept in the session. -/
theorem core_keep (s : Session) (record : Declared) :
    (s.keep record).core = s.core.keep record := by
  cases record <;> rfl

theorem core_declare (source : Text) (s : Session) (record : Declared) :
    (declare source s record).core = (declare source s.core record).core := by
  obtain ⟨hcore, hnew⟩ := core_claim s record.kind record.name source
  simp only [declare_eq, hnew]
  split
  · rw [core_keep, core_keep, hcore]
  · exact hcore

/-- Merging a result acts on the core alone. -/
theorem core_merge (s : Session) (r : JobResult) : (s.merge r).core = (s.core.merge r).core := by
  unfold merge
  split
  · rename_i image metadata _
    -- the flags and the images are alike when the first record is declared, the logs need not be
    have hfold (images : List LoadedImage) (flags : SessionFlags) (log log' : List LogEntry) :
        (metadata.records.foldl (declare r.source) { s with images, flags, log }).core =
          (metadata.records.foldl (declare r.source)
            { s.core with images, flags, log := log' }).core := by
      rw [core_foldl (core_declare r.source) { s with images, flags, log },
        core_foldl (core_declare r.source) { s.core with images, flags, log := log' }]
      rfl
    simp only [foldl_declare_records] at hfold
    exact congrArg (fun t : Session =>
      { t with skipped := t.skipped ++ metadata.skipped.map (Skip.mk r.source) }) (hfold _ _ _ _)
  · rfl

theorem core_foldl_merge (s : Session) (results : List JobResult) :
    (results.foldl merge s).core = (results.foldl merge s.core).core :=
  core_foldl core_merge s results

/-- A load finds the same however its jobs interleave. Suppose that any number of workers run the
jobs of some inputs, and that the decoder they share remembers right answers from earlier loads.
Then every request is answered with the decoded text, and only right answers are remembered for
later loads. If all results are in their slots, merging them in the order of the jobs finds the same
as running the jobs one after the other with a decoder that remembers nothing. If a job crashes, so
does the load that runs them one after the other. Finally, if there are workers at all, the jobs can
be brought to this point from wherever they are. -/
theorem sameFindings_of_reaches (s : Session) (inputs : List Input) (workers : Nat)
    {held : List Memo} (hheld : ∀ m ∈ held, m.IsRight) {pool : Pool (Attempt JobResult)}
    (hreaches : Pool.Reaches workers
      (Pool.start ((jobs s.host s.archs inputs).map Job.dialogue) held) pool) :
    (∀ m ∈ pool.answered, m.answer = m.request.decode) ∧ (∀ m ∈ pool.held, m.IsRight) ∧
      (∀ results : List JobResult, pool.Finished (results.map .returned) →
        ∃ after error?, s.load inputs false = .returned (after, error?) ∧
          SameFindings (results.foldl merge s) after) ∧
      (.finished .crashed ∈ pool.stages → s.load inputs false = .crashed) ∧
      (0 < workers →
        ∃ after results, Pool.Reaches workers pool after ∧ after.Finished results) := by
  have hsound := (Pool.sound_start hheld).reaches hreaches
  have houtcomes : pool.stages.map Stage.outcome =
      (jobs s.host s.archs inputs).map Job.run := by
    rw [hsound.outcomes, List.map_map]
    rfl
  have hcrashed := s.load_eq_crashed_iff inputs false
  refine ⟨hsound.answered, hsound.held, ?_, ?_, ?_⟩
  · intro results hfinished
    have hresults : List.Forall₂ (fun j r => Job.run j = .returned r)
        (jobs s.host s.archs inputs) results := by
      have hruns : (jobs s.host s.archs inputs).map Job.run = results.map .returned := by
        rw [← houtcomes, hfinished, List.map_map]
        exact List.map_id _
      rwa [← List.forall₂_eq_eq_eq, List.forall₂_map_left_iff, List.forall₂_map_right_iff] at hruns
    have hreturned := Attempt.mapM_eq_returned_iff.2 hresults
    cases hload : s.load inputs false with
    | crashed =>
      obtain ⟨-, j, hj, hcrashes⟩ := hcrashed.1 hload
      have hnone := Attempt.mapM_eq_crashed_iff.2 ⟨j, hj, j.run_eq_crashed_iff.2 hcrashes⟩
      rw [hreturned] at hnone
      cases hnone
    | returned result =>
      obtain ⟨after, error?⟩ := result
      obtain ⟨hcancelled, -⟩ | ⟨-, found, decoder, log, hfound, rfl, -⟩ := load_cases hload
      · cases hcancelled
      obtain rfl : results = found := List.right_unique_forall₂'
        (fun _ _ _ h h' => Attempt.returned.inj (h.symm.trans h')) hresults hfound
      refine ⟨_, error?, rfl, ?_⟩
      -- the two merges start from sessions that differ where merging does not look
      apply sameFindings_of_core_eq
      rw [core_foldl_merge, core_foldl_merge { s with decoder, failures := _, log }]
      rfl
  · intro hstage
    have hmem : Attempt.crashed ∈ (jobs s.host s.archs inputs).map Job.run := by
      rw [← houtcomes]
      exact List.mem_map_of_mem hstage
    obtain ⟨j, hj, hrun⟩ := List.mem_map.1 hmem
    exact hcrashed.2 ⟨rfl, j, hj, j.run_eq_crashed_iff.1 hrun⟩
  · intro hworkers
    obtain ⟨after, hafter, hfinished⟩ := hsound.exists_finished hworkers
    exact ⟨after, _, hafter, hfinished⟩

/-- Two copies of a file. -/
def sampleInputs : List Input := [⟨"App", .ok sampleFile⟩, ⟨"App", .ok sampleFile⟩]

/-- Two workers on two copies of a file, with a memory of one entry. -/
def sampleRun : Pool (Attempt JobResult) × DecoderCache :=
  Pool.turns 2 (Pool.start ((jobs .x86_64 [] sampleInputs).map Job.dialogue) [], .empty 1)
    [0, 1, 0, 0, 0, 1, 0, 1]

/-- The result of a job is in its slot, and the job did not crash. -/
private def hasReturned : Stage (Attempt JobResult) → Bool
  | .finished (.returned _) => true
  | _ => false

/-- A pool in which every job has returned is a finished one. -/
private theorem exists_finished_of_hasReturned {pool : Pool (Attempt JobResult)}
    (h : pool.stages.all hasReturned = true) :
    ∃ results : List JobResult, pool.Finished (results.map .returned) := by
  obtain ⟨results, hresults⟩ : pool.stages ∈
      Set.range (List.map fun r : JobResult => Stage.finished (.returned r)) := by
    rw [Set.range_list_map]
    intro stage hstage
    have hreturned := List.all_eq_true.1 h stage hstage
    rcases stage with _ | _ | _ | _ | (_ | result)
    case finished.returned => exact ⟨result, rfl⟩
    all_goals cases hreturned
  exact ⟨results, by rw [Pool.Finished, ← hresults, List.map_map]; rfl⟩

/-- The second job takes the answer that the first one has added. -/
theorem sameFindings_sampleRun :
    (sampleRun.1.answered.length = 2 ∧ sampleRun.1.held.length = 1) ∧
      (∀ m ∈ sampleRun.1.answered, m.answer = m.request.decode) ∧
      ∃ (results : List JobResult) (after : Session) (error? : Option Error),
        sampleRun.1.Finished (results.map .returned) ∧
        load { host := .x86_64 } sampleInputs false = .returned (after, error?) ∧
        SameFindings (results.foldl merge { host := .x86_64 }) after := by
  have hrun : sampleRun.1.answered.length = 2 ∧ sampleRun.1.held.length = 1 ∧
      sampleRun.1.stages.all hasReturned = true := by decide +kernel
  obtain ⟨hanswered, hheld, hreturned⟩ := hrun
  -- only the shape of the run is evaluated; that its results are right follows from the run lemma
  obtain ⟨results, hresults⟩ := exists_finished_of_hasReturned hreturned
  have hreaches : Pool.Reaches 2 (Pool.start ((jobs .x86_64 [] sampleInputs).map Job.dialogue) [])
      sampleRun.1 :=
    Pool.reaches_turns (fun m hm => absurd hm (DecoderCache.not_holds_empty 1)) _
  obtain ⟨hright, -, hsame, -⟩ :=
    sameFindings_of_reaches { host := .x86_64 } sampleInputs 2 (by simp) hreaches
  obtain ⟨after, error?, hload, hfindings⟩ := hsame results hresults
  exact ⟨⟨hanswered, hheld⟩, hright, results, after, error?, hresults, hload, hfindings⟩

end Session

end ObjcLens
