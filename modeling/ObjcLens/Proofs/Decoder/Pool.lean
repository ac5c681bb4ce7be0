import Mathlib
import ObjcLens.Decoder.Dialogue

/-!
# Several jobs that ask one decoder

A `Pool` holds jobs that a number of workers run side by side. All of them ask one decoder that
remembers its answers. To answer a request is not one step but three: the answer is looked up, the
text is decoded if none was found, and the answer is remembered. Between them any other job may
move.

Nothing is assumed of the memory but that it invents nothing. An answer that was remembered can be
found at any later time, also after another one was remembered for the same request, and a lookup
may miss at any time, as the answer may have been dropped.

## Main results

* `Step.keeps`, `Sound.reaches`: every request is answered with the decoded text, and no step
  changes what a job will result in. Each step leaves less to be done.
* `Sound.exists_finished`: whatever happened so far, all jobs can still finish.
-/

namespace ObjcLens

namespace Dialogue

/-- The number of requests if every text is decoded when it is asked for. -/
def length {α : Type} : Dialogue α → Nat
  | done _ => 0
  | ask request next => (next request.decode).length + 1

end Dialogue

/-- A request with an answer to it. -/
structure Memo where
  request : DecodeRequest
  answer : request.Answer

/-- The answer is the decoded text. -/
def Memo.IsRight (m : Memo) : Prop := m.answer = m.request.decode

/-- How far a job is. -/
inductive Stage (α : Type) where
  /-- No worker has taken it. -/
  | waiting (job : Dialogue α)
  /-- A worker has it, and no request is open. -/
  | running (rest : Dialogue α)
  /-- The answer to a request was not found. -/
  | missed (request : DecodeRequest) (next : request.Answer → Dialogue α)
  /-- The text is decoded, but the answer is not remembered yet. -/
  | decoded (request : DecodeRequest) (answer : request.Answer)
      (next : request.Answer → Dialogue α)
  /-- The result is in its slot. -/
  | finished (result : α)

namespace Stage

variable {α : Type}

/-- A worker has the job. -/
def isActive : Stage α → Bool
  | waiting _ | finished _ => false
  | running _ | missed .. | decoded .. => true

/-- The job waits for a worker. -/
def isWaiting : Stage α → Bool
  | waiting _ => true
  | _ => false

/-- The result of a job is in its slot. -/
def isFinished : Stage α → Bool
  | finished _ => true
  | _ => false

/-- What the job results in if every text is decoded from now on. -/
def outcome : Stage α → α
  | waiting job => job.run
  | running rest => rest.run
  | missed request next | decoded request _ next => (next request.decode).run
  | finished result => result

/-- The answer that is about to be remembered is the decoded text. -/
def IsRight : Stage α → Prop
  | decoded request answer _ => answer = request.decode
  | _ => True

/-- The number of steps that are left at most. -/
def work : Stage α → Nat
  | waiting job => 3 * job.length + 2
  | running rest => 3 * rest.length + 1
  | missed request next => 3 * (next request.decode).length + 3
  | decoded request _ next => 3 * (next request.decode).length + 2
  | finished _ => 0

end Stage

/-- One step of a job. The first list is what can be found; the others are what the step remembers
and what answers it hands to the job. -/
inductive Moves {α : Type} (held : List Memo) :
    Stage α → List Memo → List Memo → Stage α → Prop
  | start (job : Dialogue α) : Moves held (.waiting job) [] [] (.running job)
  | hit {request : DecodeRequest} {answer : request.Answer} (next : request.Answer → Dialogue α)
      (h : ⟨request, answer⟩ ∈ held) :
      Moves held (.running (.ask request next)) [] [⟨request, answer⟩] (.running (next answer))
  | miss (request : DecodeRequest) (next : request.Answer → Dialogue α) :
      Moves held (.running (.ask request next)) [] [] (.missed request next)
  | decode (request : DecodeRequest) (next : request.Answer → Dialogue α) :
      Moves held (.missed request next) [] [] (.decoded request request.decode next)
  | remember (request : DecodeRequest) (answer : request.Answer)
      (next : request.Answer → Dialogue α) :
      Moves held (.decoded request answer next) [⟨request, answer⟩] [⟨request, answer⟩]
        (.running (next answer))
  | finish (result : α) : Moves held (.running (.done result)) [] [] (.finished result)

namespace Moves

variable {α : Type} {held remembered handed : List Memo} {stage after : Stage α}

/-- A step of a job with a decoder that remembers decoded texts only. It remembers and hands out
decoded texts only, brings the job nearer to its end and leaves its outcome as it is. -/
structure Keeps (stage after : Stage α) (remembered handed : List Memo) : Prop where
  isRight : after.IsRight
  outcome : after.outcome = stage.outcome
  work : after.work < stage.work
  remembered : ∀ m ∈ remembered, m.IsRight
  handed : ∀ m ∈ handed, m.IsRight

/-- What one step of a job does, by the kind of the step. -/
theorem keeps (h : Moves held stage remembered handed after)
    (hheld : ∀ m ∈ held, m.IsRight) (hstage : stage.IsRight) :
    Keeps stage after remembered handed := by
  cases h with
  | start job => exact ⟨trivial, rfl, by simp [Stage.work], by simp, by simp⟩
  | @hit request answer next hmem =>
    obtain rfl : answer = request.decode := hheld _ hmem
    refine ⟨trivial, rfl, ?_, by simp, by simpa using hheld _ hmem⟩
    simp only [Stage.work, Dialogue.length]
    omega
  | miss request next =>
    refine ⟨trivial, rfl, ?_, by simp, by simp⟩
    simp only [Stage.work, Dialogue.length]
    omega
  | decode request next => exact ⟨rfl, rfl, by simp [Stage.work], by simp, by simp⟩
  | remember request answer next =>
    obtain rfl : answer = request.decode := hstage
    exact ⟨trivial, rfl, by simp [Stage.work], by simp [Memo.IsRight], by simp [Memo.IsRight]⟩
  | finish result => exact ⟨trivial, rfl, by simp [Stage.work], by simp, by simp⟩

end Moves

theorem Stage.isWaiting_of_isActive {α : Type} {stage : Stage α} (h : stage.isActive = true) :
    stage.isWaiting = false := by
  cases stage with
  | waiting job => cases h
  | _ => rfl

/-- A job with a worker can move. -/
theorem Stage.exists_moves_of_isActive {α : Type} {stage : Stage α} (h : stage.isActive = true)
    (held : List Memo) : ∃ remembered handed after, Moves held stage remembered handed after := by
  cases stage with
  | waiting job => cases h
  | running rest =>
    cases rest with
    | done result => exact ⟨_, _, _, .finish result⟩
    | ask request next => exact ⟨_, _, _, .miss request next⟩
  | missed request next => exact ⟨_, _, _, .decode request next⟩
  | decoded request answer next => exact ⟨_, _, _, .remember request answer next⟩
  | finished result => cases h

/-- Jobs that are run side by side. -/
structure Pool (α : Type) where
  /-- How far each job is. -/
  stages : List (Stage α)
  /-- Everything that was remembered so far. -/
  held : List Memo
  /-- The requests of all jobs with the answers that they were given. -/
  answered : List Memo := []

namespace Pool

variable {α : Type} {workers : Nat} {jobs : List (Dialogue α)} {p q : Pool α}

/-- Jobs that no worker has taken, in front of a decoder that remembers something. -/
def start (jobs : List (Dialogue α)) (held : List Memo) : Pool α := ⟨jobs.map .waiting, held, []⟩

/-- The number of workers that have a job. -/
def active (p : Pool α) : Nat := p.stages.countP Stage.isActive

/-- One step of one job. A job is only taken if there is a worker for it. -/
inductive Step (workers : Nat) : Pool α → Pool α → Prop
  | step {before behind : List (Stage α)} {stage after : Stage α}
      {held answered remembered handed : List Memo}
      (hworker : stage.isWaiting = true →
        (Pool.mk (before ++ stage :: behind) held answered).active < workers)
      (hmoves : Moves held stage remembered handed after) :
      Step workers ⟨before ++ stage :: behind, held, answered⟩
        ⟨before ++ after :: behind, held ++ remembered, answered ++ handed⟩

/-- A step of the job with a number. -/
theorem Step.of_getElem? {i : Nat} {stage after : Stage α} {remembered handed : List Memo}
    (hstage : p.stages[i]? = some stage) (hworker : stage.isWaiting = true → p.active < workers)
    (hmoves : Moves p.held stage remembered handed after) :
    Step workers p ⟨p.stages.set i after, p.held ++ remembered, p.answered ++ handed⟩ := by
  obtain ⟨stages, held, answered⟩ := p
  obtain ⟨hi, hget⟩ := List.getElem?_eq_some_iff.1 hstage
  -- setting a stage leaves those in front of it and behind it
  obtain ⟨before, behind, hsplit, -, hset⟩ := @List.exists_of_set _ i after stages hi
  rw [hset]
  dsimp only at hget hsplit
  rw [hget] at hsplit
  subst hsplit
  exact .step hworker hmoves

/-- Any number of steps of any jobs in any order. -/
abbrev Reaches (workers : Nat) : Pool α → Pool α → Prop := Relation.ReflTransGen (Step workers)

/-- The results of all jobs are in their slots. -/
def Finished (p : Pool α) (results : List α) : Prop := p.stages = results.map .finished

/-- The number of steps that are left at most. -/
def work (p : Pool α) : Nat := (p.stages.map Stage.work).sum

/-- Everything that was remembered or handed out is right, and each job will result in what it
results in alone. -/
structure Sound (jobs : List (Dialogue α)) (p : Pool α) : Prop where
  outcomes : p.stages.map Stage.outcome = jobs.map Dialogue.run
  isRight : ∀ stage ∈ p.stages, stage.IsRight
  held : ∀ m ∈ p.held, m.IsRight
  answered : ∀ m ∈ p.answered, m.IsRight

/-- A pool in which nothing has happened yet is sound. -/
theorem sound_start {held : List Memo} (hheld : ∀ m ∈ held, m.IsRight) :
    Sound jobs (start jobs held) where
  outcomes := by
    rw [start, List.map_map]
    rfl
  isRight := by
    intro stage hstage
    obtain ⟨job, -, rfl⟩ := List.mem_map.1 hstage
    trivial
  held := hheld
  answered := by simp [start]

/-- What one step does to the whole pool. -/
theorem Step.keeps (h : Step workers p q) (hp : Sound jobs p) : Sound jobs q ∧ q.work < p.work := by
  obtain ⟨-, hmoves⟩ := h
  obtain ⟨houtcomes, hisRight, hheld, hanswered⟩ := hp
  dsimp only at houtcomes hisRight hheld hanswered
  rw [List.forall_mem_append, List.forall_mem_cons] at hisRight
  have hkeeps := hmoves.keeps hheld hisRight.2.1
  refine ⟨⟨?_, ?_, ?_, ?_⟩, ?_⟩
  · simpa [hkeeps.outcome] using houtcomes
  · rw [List.forall_mem_append, List.forall_mem_cons]
    exact ⟨hisRight.1, hkeeps.isRight, hisRight.2.2⟩
  · exact List.forall_mem_append.2 ⟨hheld, hkeeps.remembered⟩
  · exact List.forall_mem_append.2 ⟨hanswered, hkeeps.handed⟩
  · simpa [work] using hkeeps.work

/-- The run lemma: any steps keep a pool sound. -/
theorem Sound.reaches (hp : Sound jobs p) (h : Reaches workers p q) : Sound jobs q := by
  induction h with
  | refl => exact hp
  | tail _ hstep ih => exact (hstep.keeps ih).1

/-- The slots hold what each job results in alone. -/
theorem Sound.eq_of_finished (hp : Sound jobs p) {results : List α} (h : p.Finished results) :
    results = jobs.map Dialogue.run := by
  rw [← hp.outcomes, h, List.map_map]
  exact (List.map_id _).symm

/-- If every job is finished, the pool has all results. -/
theorem exists_finished_of_all (h : p.stages.all Stage.isFinished = true) :
    ∃ results, p.Finished results := by
  obtain ⟨results, hresults⟩ : p.stages ∈ Set.range (List.map Stage.finished) := by
    rw [Set.range_list_map]
    intro stage hstage
    have hfinished := List.all_eq_true.1 h stage hstage
    cases stage with
    | finished result => exact ⟨result, rfl⟩
    | _ => cases hfinished
  exact ⟨results, hresults.symm⟩

/-- A pool that is not finished has a step, if there are workers at all. -/
theorem exists_step_or_finished (hworkers : 0 < workers) (p : Pool α) :
    (∃ q, Step workers p q) ∨ ∃ results, p.Finished results := by
  obtain ⟨stages, held, answered⟩ := p
  by_cases hactive : ∃ stage ∈ stages, stage.isActive = true
  · obtain ⟨stage, hmem, hactive⟩ := hactive
    obtain ⟨before, behind, rfl⟩ := List.append_of_mem hmem
    obtain ⟨remembered, handed, after, hmoves⟩ := stage.exists_moves_of_isActive hactive held
    have hwaiting : stage.isWaiting = false := Stage.isWaiting_of_isActive hactive
    exact Or.inl ⟨_, .step (by simp [hwaiting]) hmoves⟩
  · -- no worker has a job, so that a job that waits can be taken
    have hfree : (Pool.mk stages held answered).active < workers := by
      rw [active, List.countP_eq_zero.2 (by simpa using hactive)]
      exact hworkers
    by_cases hwaiting : ∃ job, Stage.waiting job ∈ stages
    · obtain ⟨job, hmem⟩ := hwaiting
      obtain ⟨before, behind, rfl⟩ := List.append_of_mem hmem
      exact Or.inl ⟨_, .step (fun _ => hfree) (.start job)⟩
    · right
      apply exists_finished_of_all
      rw [List.all_eq_true]
      intro stage hstage
      cases stage with
      | waiting job => exact absurd ⟨job, hstage⟩ hwaiting
      | finished result => rfl
      | _ => exact absurd ⟨_, hstage, rfl⟩ hactive

/-- Whatever happened so far, the jobs can be brought to their ends. The induction is on the work
that is left. -/
theorem Sound.exists_finished (hworkers : 0 < workers) (hp : Sound jobs p) :
    ∃ q, Reaches workers p q ∧ q.Finished (jobs.map Dialogue.run) := by
  induction hwork : p.work using Nat.strong_induction_on generalizing p with
  | _ n ih =>
    subst hwork
    rcases exists_step_or_finished hworkers p with ⟨q, hstep⟩ | ⟨results, hfinished⟩
    · obtain ⟨hq, hlt⟩ := hstep.keeps hp
      obtain ⟨r, hreaches, hfinished⟩ := ih q.work hlt hq rfl
      exact ⟨r, .head hstep hreaches, hfinished⟩
    · obtain rfl := hp.eq_of_finished hfinished
      exact ⟨p, .refl, hfinished⟩

end Pool

end ObjcLens
