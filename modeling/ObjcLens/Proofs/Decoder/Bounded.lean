import ObjcLens.Decoder.Cache
import ObjcLens.Proofs.Decoder.Pool

/-!
# Jobs that share a bounded memory

A `DecoderCache` holds only what was added to it, and drops the oldest entries. Jobs that share one
therefore move as a pool allows, whichever of them has the next turn.

## Main results

* `DecoderCache.holds_of_find?`, `DecoderCache.holds_of_remember`: what is found was added.
* `Dialogue.runAmong_eq`: a decoder that remembers gives the same answers as one that does not.
* `Pool.reaches_turns`: turns of jobs that share a bounded memory are steps of a pool.
-/

namespace ObjcLens

namespace Lru

variable {α β : Type} [BEq α] {table after : Lru α β} {key : α} {value : β}

/-- What is found was there, and looking it up adds nothing. -/
theorem entries_of_get? [LawfulBEq α] (h : table.get? key = some (value, after)) :
    (key, value) ∈ table.entries ∧ after.entries ⊆ table.entries := by
  cases hfind : table.entries.find? fun entry => entry.1 == key with
  | none => simp [get?, hfind] at h
  | some entry =>
    have hmem := List.mem_of_find?_eq_some hfind
    have hkey : entry.1 = key := by simpa using List.find?_some hfind
    rw [get?, hfind] at h
    obtain ⟨rfl, rfl⟩ := Prod.mk.inj (Option.some.inj h)
    rw [← hkey]
    exact ⟨hmem, List.cons_subset.2 ⟨hmem, List.filter_subset_self _⟩⟩

/-- An insertion adds one entry at most; it may drop others. -/
theorem entries_insert_subset (table : Lru α β) (key : α) (value : β) :
    (table.insert key value).entries ⊆ (key, value) :: table.entries :=
  List.Subset.trans (List.take_subset _ _) (List.cons_subset_cons _ (List.filter_subset_self _))

end Lru

namespace DecoderCache

variable {cache after : DecoderCache} {request : DecodeRequest} {answer : request.Answer} {m : Memo}

/-- The answer that is held for a request. -/
def find? (cache : DecoderCache) :
    (request : DecodeRequest) → Option (request.Answer × DecoderCache)
  | .type encoding => (cache.types.get? encoding).map fun (type, types) =>
      (type, { cache with types })
  | .method encoding => (cache.methods.get? encoding).map fun (type, methods) =>
      (type, { cache with methods })

/-- The cache with an answer added. -/
def remember (cache : DecoderCache) : (request : DecodeRequest) → request.Answer → DecoderCache
  | .type encoding, type => { cache with types := cache.types.insert encoding type }
  | .method encoding, type => { cache with methods := cache.methods.insert encoding type }

/-- The answer is held for the request. -/
def Holds (cache : DecoderCache) : Memo → Prop
  | ⟨.type encoding, type⟩ => (encoding, type) ∈ cache.types.entries
  | ⟨.method encoding, type⟩ => (encoding, type) ∈ cache.methods.entries

/-- What a request is answered with, and the cache after it. -/
def reply (cache : DecoderCache) : (request : DecodeRequest) → request.Answer × DecoderCache
  | .type encoding => ((cache.type encoding).1, (cache.type encoding).2.2)
  | .method encoding => ((cache.method encoding).1, (cache.method encoding).2.2)

/-- The cache after a request is the one that comes with the reply. -/
theorem answer_eq (cache : DecoderCache) (request : DecodeRequest) :
    cache.answer request = (cache.reply request).2 := by
  cases request <;> rfl

/-- To answer a request is to look it up and, if it is not there, to decode and add it. -/
theorem reply_eq (cache : DecoderCache) (request : DecodeRequest) :
    cache.reply request =
      (cache.find? request).getD (request.decode, cache.remember request request.decode) := by
  cases request with
  | type encoding =>
    simp only [reply, type, Lru.fetch, find?, remember]
    cases cache.types.get? encoding <;> rfl
  | method encoding =>
    simp only [reply, method, Lru.fetch, find?, remember]
    cases cache.methods.get? encoding <;> rfl

/-- An empty cache holds nothing. -/
theorem not_holds_empty (capacity : Int) : ¬ (empty capacity).Holds m := by
  obtain ⟨request, answer⟩ := m
  cases request <;> exact List.not_mem_nil

/-- What is found was held, and looking it up adds nothing. -/
theorem holds_of_find? (h : cache.find? request = some (answer, after)) :
    cache.Holds ⟨request, answer⟩ ∧ ∀ m, after.Holds m → cache.Holds m := by
  cases request with
  | type encoding =>
    obtain ⟨⟨type, types⟩, hget, heq⟩ := Option.map_eq_some_iff.1 h
    obtain ⟨rfl, rfl⟩ := Prod.mk.inj heq
    obtain ⟨hmem, hsubset⟩ := Lru.entries_of_get? hget
    refine ⟨hmem, ?_⟩
    -- types and signatures are held in tables of their own; the other table is as it was
    rintro ⟨request | request, held⟩ hheld
    · exact hsubset hheld
    · exact hheld
  | method encoding =>
    obtain ⟨⟨type, methods⟩, hget, heq⟩ := Option.map_eq_some_iff.1 h
    obtain ⟨rfl, rfl⟩ := Prod.mk.inj heq
    obtain ⟨hmem, hsubset⟩ := Lru.entries_of_get? hget
    refine ⟨hmem, ?_⟩
    rintro ⟨request | request, held⟩ hheld
    · exact hheld
    · exact hsubset hheld

/-- What is held was held before or has just been added. -/
theorem holds_of_remember (h : (cache.remember request answer).Holds m) :
    m = ⟨request, answer⟩ ∨ cache.Holds m := by
  cases request with
  | type encoding =>
    rcases m with ⟨_ | _, held⟩
    · rcases List.mem_cons.1 (Lru.entries_insert_subset _ _ _ h) with heq | hmem
      · cases heq
        exact Or.inl rfl
      · exact Or.inr hmem
    · exact Or.inr h
  | method encoding =>
    rcases m with ⟨_ | _, held⟩
    · exact Or.inr h
    · rcases List.mem_cons.1 (Lru.entries_insert_subset _ _ _ h) with heq | hmem
      · cases heq
        exact Or.inl rfl
      · exact Or.inr hmem

/-- Everything that is held is the decoded text. -/
def IsRight (cache : DecoderCache) : Prop := ∀ m, cache.Holds m → m.IsRight

theorem isRight_empty (capacity : Int) : (empty capacity).IsRight :=
  fun _ hm => absurd hm (not_holds_empty capacity)

/-- A cache that is right gives the decoded text, and it is still right after that. -/
theorem IsRight.reply (h : cache.IsRight) (request : DecodeRequest) :
    (cache.reply request).1 = request.decode ∧ (cache.reply request).2.IsRight := by
  rw [reply_eq]
  cases hfind : cache.find? request with
  | none =>
    refine ⟨rfl, fun m hm => ?_⟩
    rcases holds_of_remember hm with rfl | hheld
    · rfl
    · exact h m hheld
  | some found =>
    obtain ⟨answer, after⟩ := found
    obtain ⟨hanswer, hless⟩ := holds_of_find? hfind
    exact ⟨h _ hanswer, fun m hm => h m (hless m hm)⟩

/-- Answers that were right stay right, whatever is asked. -/
theorem IsRight.answerAll (h : cache.IsRight) (requests : List DecodeRequest) :
    (cache.answerAll requests).IsRight := by
  induction requests generalizing cache with
  | nil => exact h
  | cons request requests ih =>
    have hanswer : (cache.answer request).IsRight := by
      rw [answer_eq]
      exact (h.reply request).2
    exact ih hanswer

end DecoderCache

namespace Dialogue

variable {α : Type}

/-- The dialogue with a decoder that remembers, and the cache after it. Others ask the decoder as
well, before each of the requests. -/
def runAmong : Dialogue α → (others : ℕ → List DecodeRequest) → DecoderCache → α × DecoderCache
  | done result, _, cache => (result, cache)
  | ask request next, others, cache =>
    let (answer, after) := (cache.answerAll (others 0)).reply request
    (next answer).runAmong (fun n => others (n + 1)) after

/-- What is remembered makes no difference, and neither do the others. -/
theorem runAmong_eq (d : Dialogue α) (others : ℕ → List DecodeRequest) {cache : DecoderCache}
    (hcache : cache.IsRight) :
    (d.runAmong others cache).1 = d.run ∧ (d.runAmong others cache).2.IsRight := by
  induction d generalizing others cache with
  | done result => exact ⟨rfl, hcache⟩
  | ask request next ih =>
    obtain ⟨hanswer, hafter⟩ := (hcache.answerAll (others 0)).reply request
    rw [runAmong, run, ← hanswer]
    exact ih _ _ hafter

end Dialogue

/-- What a turn of a job leaves. -/
structure Turn (α : Type) where
  after : Stage α
  remembered : List Memo := []
  handed : List Memo := []
  cache : DecoderCache

namespace Stage

variable {α : Type}

/-- The next step of a job that is not finished. -/
def turn (cache : DecoderCache) : Stage α → Turn α
  | waiting job => { after := running job, cache }
  | running (.ask request next) =>
    match cache.find? request with
    | some (answer, cache) =>
      { after := running (next answer), handed := [⟨request, answer⟩], cache }
    | none => { after := missed request next, cache }
  | running (.done result) => { after := finished result, cache }
  | missed request next => { after := decoded request request.decode next, cache }
  | decoded request answer next =>
    { after := running (next answer)
      remembered := [⟨request, answer⟩]
      handed := [⟨request, answer⟩]
      cache := cache.remember request answer }
  | finished result => { after := finished result, cache }

/-- A turn is a step that a pool allows. -/
theorem moves_turn {cache : DecoderCache} {held : List Memo} (hheld : ∀ m, cache.Holds m → m ∈ held)
    {stage : Stage α} (hstage : stage.isFinished = false) :
    let turn := stage.turn cache
    Moves held stage turn.remembered turn.handed turn.after ∧
      ∀ m, turn.cache.Holds m → m ∈ held ++ turn.remembered := by
  have hsame : ∀ m, cache.Holds m → m ∈ held ++ [] := by simpa using hheld
  cases stage with
  | waiting job => exact ⟨.start job, hsame⟩
  | running rest =>
    cases rest with
    | done result => exact ⟨.finish result, hsame⟩
    | ask request next =>
      simp only [turn]
      cases hfind : cache.find? request with
      | none => exact ⟨.miss request next, hsame⟩
      | some found =>
        obtain ⟨hmem, hless⟩ := DecoderCache.holds_of_find? hfind
        exact ⟨.hit next (hheld _ hmem), fun m hm => hsame m (hless m hm)⟩
  | missed request next => exact ⟨.decode request next, hsame⟩
  | decoded request answer next =>
    constructor
    · exact .remember request answer next
    · intro m hm
      rcases DecoderCache.holds_of_remember hm with rfl | hm
      · exact List.mem_append_right _ (List.mem_singleton.2 rfl)
      · exact List.mem_append_left _ (hheld m hm)
  | finished result => cases hstage

end Stage

namespace Pool

variable {α : Type} {workers : Nat} {p : Pool α} {cache : DecoderCache}

/-- The pool and its cache after the turn of one job. A job that is finished has no more turns, nor
has one that waits while there is no worker for it. -/
def turn (workers : Nat) : Pool α × DecoderCache → Nat → Pool α × DecoderCache
  | (p, cache), i =>
    match p.stages[i]? with
    | none => (p, cache)
    | some stage =>
      if stage.isFinished || (stage.isWaiting && workers ≤ p.active) then (p, cache)
      else
        let turn := stage.turn cache
        (⟨p.stages.set i turn.after, p.held ++ turn.remembered, p.answered ++ turn.handed⟩,
          turn.cache)

/-- The pool and its cache after some turns, each of the job with that number. -/
def turns (workers : Nat) (start : Pool α × DecoderCache) (order : List Nat) :
    Pool α × DecoderCache :=
  order.foldl (turn workers) start

/-- A turn of a job takes the pool nowhere but where its steps lead. -/
theorem reaches_turn (hheld : ∀ m, cache.Holds m → m ∈ p.held) (i : Nat) :
    let after := turn workers (p, cache) i
    Reaches workers p after.1 ∧ ∀ m, after.2.Holds m → m ∈ after.1.held := by
  obtain ⟨stages, held, answered⟩ := p
  simp only [turn]
  split
  · exact ⟨.refl, hheld⟩
  · rename_i stage hstage
    split
    · exact ⟨.refl, hheld⟩
    -- a turn is lost on a job that is finished, and on a new one if every worker is busy
    · rename_i hturn
      rw [Bool.or_eq_true, not_or, Bool.not_eq_true] at hturn
      obtain ⟨hmoves, hheld⟩ := Stage.moves_turn hheld hturn.1
      exact ⟨.single (.of_getElem? hstage (by simpa using hturn.2) hmoves), hheld⟩

/-- Turns of jobs that share a bounded memory are steps of a pool. -/
theorem reaches_turns (hheld : ∀ m, cache.Holds m → m ∈ p.held) (order : List Nat) :
    Reaches workers p (turns workers (p, cache) order).1 := by
  induction order generalizing p cache with
  | nil => exact .refl
  | cons i order ih =>
    obtain ⟨hreaches, hheld⟩ := @reaches_turn _ workers p cache hheld i
    exact hreaches.trans (ih hheld)

end Pool

end ObjcLens
