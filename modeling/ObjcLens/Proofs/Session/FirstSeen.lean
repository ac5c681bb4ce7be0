import ObjcLens.Draft.Encode
import ObjcLens.Proofs.Record.Slots
import ObjcLens.Proofs.Text.Numeral
import ObjcLens.Session

/-!
# First definitions win

A session is told records one after the other: those of the slices that could be read, in the
order of the calls, the inputs and the slices, and for each slice protocols, then classes, then
categories. `LoadCall.sightings` is that stream for one call; it depends on what is loaded, on the
architectures of the session and on its host, but not on what the session has seen before.

The invariant `Session.Reflects` says what a session makes of the stream. Its lists are the first
occurrences of each name, its indices lead to the entries of the lists, its table of sources has an
entry for each of them, and its notes are the later occurrences. A call with a slice whose metadata
crash the program leaves no session to speak of.

## Main results

* `EntityKind.key_inj`: the keys of the table of sources tell kinds and names apart.
* `Session.Reflects.declare`: one more record keeps a session in step with the stream.
* `Session.Reflects.run`: so does a call that returns, whether it loads something or not.
* `Session.first_seen_wins`: the lists, the lookups and the notes after any sequence of calls.
-/

namespace ObjcLens

/-! ### First and later occurrences -/

section Occurrences

variable {α κ : Type} [DecidableEq κ]

/-- Every element of a list, with the elements in front of it. -/
def withEarlier (l : List α) : List (List α × α) := l.zipIdx.map fun p => (l.take p.2, p.1)

/-- The elements that have no element with the same key in front of them, in order. -/
def firstOccurrences (key : α → κ) (l : List α) : List α :=
  ((withEarlier l).filter fun p => !p.1.any (key · = key p.2)).map (·.2)

theorem withEarlier_concat (l : List α) (x : α) :
    withEarlier (l ++ [x]) = withEarlier l ++ [(l, x)] := by
  have hearlier : ∀ p ∈ l.zipIdx, (l ++ [x]).take p.2 = l.take p.2 := by
    intro p hp
    have hlt : p.2 < l.length := by simpa using List.snd_lt_of_mem_zipIdx hp
    exact List.take_append_of_le_length hlt.le
  rw [withEarlier, withEarlier, List.zipIdx_append, List.map_append]
  congr 1
  · exact List.map_congr_left fun p hp => by rw [hearlier p hp]
  · simp

/-- One more element is a first occurrence unless its key is there. -/
theorem firstOccurrences_concat (key : α → κ) (l : List α) (x : α) :
    firstOccurrences key (l ++ [x]) =
      firstOccurrences key l ++ if l.any (key · = key x) then [] else [x] := by
  rw [firstOccurrences, withEarlier_concat, List.filter_append, List.map_append, firstOccurrences]
  congr 1
  rw [List.filter_singleton]
  cases l.any (key · = key x) <;> rfl

/-- What is first stays first when more elements follow. -/
theorem firstOccurrences_isPrefix (key : α → κ) (l more : List α) :
    firstOccurrences key l <+: firstOccurrences key (l ++ more) := by
  induction more using List.reverseRecOn with
  | nil => simp
  | append_singleton more x ih =>
    rw [← List.append_assoc, firstOccurrences_concat]
    exact ih.trans (List.prefix_append _ _)

/-- A key is found among the first occurrences where it is found in the whole list. -/
theorem find?_firstOccurrences (key : α → κ) (l : List α) (k : κ) :
    (firstOccurrences key l).find? (key · = k) = l.find? (key · = k) := by
  induction l using List.reverseRecOn with
  | nil => rfl
  | append_singleton l x ih =>
    rw [firstOccurrences_concat, List.find?_append, List.find?_append, ih]
    by_cases hk : key x = k
    · -- an earlier element with the key of `x` is found first on both sides
      subst hk
      by_cases hany : l.any (key · = key x) = true
      · obtain ⟨y, hy⟩ : ∃ y, l.find? (key · = key x) = some y :=
          Option.isSome_iff_exists.1 (by simpa using hany)
        simp [hy]
      · simp [hany]
    · by_cases hany : l.any (key · = key x) = true <;> simp [hany, hk]

end Occurrences

/-! ### Indices of lists -/

namespace NameIndex

variable {β : Type} {index : NameIndex β} {key : β → Text} {l : List β}

/-- An index agrees with a list: a name leads to the first element of the list that goes by it. -/
def Lists (index : NameIndex β) (key : β → Text) (l : List β) : Prop :=
  ∀ name, index.find? name = l.find? (key · = name)

/-- The empty index lists nothing. -/
theorem lists_nil (key : β → Text) : (({} : NameIndex β)).Lists key [] := fun _ => rfl

/-- A new name is written to the index when its element is put behind the list. -/
theorem Lists.insert (h : index.Lists key l) {b : β} (hnew : l.any (key · = key b) = false) :
    (index.insert (key b) b).Lists key (l ++ [b]) := by
  intro name
  rw [find?_insert, h name, List.find?_append]
  by_cases hname : key b = name
  · subst hname
    have hnone : l.find? (key · = key b) = none := by simpa using hnew
    simp [hnone]
  · simp [hname]

end NameIndex

/-! ### The stream of records -/

/-- A record that an image declares. -/
inductive Declared where
  | ofProtocol (p : Protocol)
  | ofClass (c : Class)
  | ofCategory (c : Category)

namespace Declared

/-- The kind of a record. -/
def kind : Declared → EntityKind
  | .ofProtocol _ => .ofProtocol
  | .ofClass _ => .ofClass
  | .ofCategory _ => .ofCategory

/-- The name that a record goes by, for a category its key. -/
def name : Declared → Text
  | .ofProtocol p => p.name
  | .ofClass c => c.name
  | .ofCategory c => c.key

def protocol? : Declared → Option Protocol
  | .ofProtocol p => some p
  | _ => none

def class? : Declared → Option Class
  | .ofClass c => some c
  | _ => none

def category? : Declared → Option Category
  | .ofCategory c => some c
  | _ => none

end Declared

/-- A record with the source that it was read from. -/
structure Sighting where
  /-- The record. -/
  record : Declared
  /-- The name of the source. -/
  source : Text

/-- What tells records apart: their kinds and names. -/
def Sighting.id (x : Sighting) : EntityKind × Text := (x.record.kind, x.record.name)

/-- The notes that a stream of records calls for: one for each record whose kind and name were
seen before, in order, which keeps the source of the first of them. -/
def Sighting.notes (seen : List Sighting) : List Note :=
  (withEarlier seen).filterMap fun p =>
    (p.1.find? (·.id = p.2.id)).map fun first =>
      ⟨p.2.record.kind, p.2.record.name, first.source, p.2.source⟩

example (p q : Protocol) (c : Class) (hq : q.name = p.name) (hc : c.name = p.name) :
    Sighting.notes [⟨.ofProtocol p, "a"⟩, ⟨.ofClass c, "a"⟩, ⟨.ofProtocol q, "b"⟩] =
      [⟨.ofProtocol, p.name, "a", "b"⟩] := by
  simp [Sighting.notes, withEarlier, Sighting.id, Declared.kind, Declared.name, hq, hc]

/-- The records of an image: protocols, then classes, then categories. -/
def Metadata.records (m : Metadata) : List Declared :=
  m.protocols.map .ofProtocol ++ m.classes.map .ofClass ++ m.categories.map .ofCategory

/-- The records of a slice, none if it cannot be read. -/
def Job.sightings (j : Job) : List Sighting :=
  match j.run with
  | .returned { outcome := .ok (_, metadata), .. } => metadata.records.map (⟨·, j.source⟩)
  | _ => []

/-- The metadata of a slice crash the program: its image is opened, but the image info in it claims
more bytes than can be addressed. -/
def Job.Crashes (j : Job) : Prop :=
  ∃ image, j.slice.image j.contents = .ok image ∧ image.hasOversizedInfo = true

/-- The records of an input, slice by slice. -/
def Input.sightings (host : CpuType) (archs : List Arch) (input : Input) : List Sighting :=
  match Session.jobsOf host archs input with
  | .ok jobs => jobs.flatMap Job.sightings
  | .error _ => []

/-- The error of an input that gives no slices. -/
def Input.failure? (host : CpuType) (archs : List Arch) (input : Input) : Option Error :=
  match Session.jobsOf host archs input with
  | .error error => some error
  | .ok _ => none

/-- The slices of all inputs that are read. -/
def Session.jobs (host : CpuType) (archs : List Arch) (inputs : List Input) : List Job :=
  (inputs.map (jobsOf host archs)).flatMap fun
    | .error _ => []
    | .ok jobs => jobs

/-- A call that loads one file from memory or several files from a directory. -/
inductive LoadCall where
  | bytes (name : Text) (contents : Contents) (cancelled : Bool)
  | files (dir : Directory) (paths : List Text) (cancelled : Bool)

namespace LoadCall

/-- The inputs of a call. -/
def inputs : LoadCall → List Input
  | .bytes name contents _ => [⟨name, .ok contents⟩]
  | .files dir paths _ => paths.map fun path => ⟨path, dir.read path⟩

def isCancelled : LoadCall → Bool
  | .bytes _ _ cancelled | .files _ _ cancelled => cancelled

/-- The records of all slices that a call reads, input by input. A call that was cancelled reads
none. -/
def sightings (host : CpuType) (archs : List Arch) (call : LoadCall) : List Sighting :=
  if call.isCancelled then [] else call.inputs.flatMap (Input.sightings host archs)

/-- A call crashes the program if it reads a slice whose metadata do. -/
def Crashes (host : CpuType) (archs : List Arch) (call : LoadCall) : Prop :=
  call.isCancelled = false ∧ ∃ j ∈ Session.jobs host archs call.inputs, j.Crashes

/-- The session after a call, and the error of the call. -/
def run (s : Session) : LoadCall → Attempt (Session × Option Error)
  | .bytes name contents cancelled => s.loadBytes name contents cancelled
  | .files dir paths cancelled => s.loadFiles dir paths cancelled

end LoadCall

namespace Session

/-- The session after several calls, whether they fail or not. -/
def runAll (s : Session) (calls : List LoadCall) : Attempt Session :=
  calls.foldlM (fun s call => (·.1) <$> call.run s) s

/-- What a session keeps of a stream of records of one kind: the first occurrence of each name, in a
list and in an index. -/
structure Keeps {β : Type} (view : Declared → Option β) (key : β → Text) (seen : List Sighting)
    (l : List β) (index : NameIndex β) : Prop where
  list_eq : l = firstOccurrences key (seen.filterMap (view ·.record))
  index_lists : index.Lists key l

/-- A session is in step with a stream of records: it keeps the first occurrence of each name with
its source, and has a note for every later one. -/
structure Reflects (host : CpuType) (archs : List Arch) (seen : List Sighting) (s : Session) :
    Prop where
  /-- The host stays the same. -/
  host_eq : s.host = host
  /-- The architectures stay the same. -/
  archs_eq : s.archs = archs
  protocols : Keeps Declared.protocol? (·.name) seen s.model.protocols s.protocolIndex
  classes : Keeps Declared.class? (·.name) seen s.model.classes s.classIndex
  categories : Keeps Declared.category? (·.key) seen s.model.categories s.categoryIndex
  /-- The table of sources has the first occurrences of all kinds. -/
  find?_sources : ∀ kind name, s.sources.find? (kind.key name) =
    (seen.find? (·.id = (kind, name))).map (·.source)
  notes_eq : s.notes = Sighting.notes seen

end Session

namespace Job

/-- What a job returns is made of its image and the metadata of it. -/
private theorem run_eq (j : Job) :
    j.run = match j.slice.image j.contents with
      | .error error => .returned { source := j.source, outcome := .error error }
      | .ok image => j.conclude image image.extract := by
  rw [Job.run, Job.dialogue]
  cases j.slice.image j.contents with
  | error error => rfl
  | ok image => exact Dialogue.run_bind (image.extraction true) _

/-- A job crashes if and only if the metadata of its image do. -/
theorem run_eq_crashed_iff (j : Job) : j.run = .crashed ↔ j.Crashes := by
  rw [run_eq, Job.Crashes]
  cases j.slice.image j.contents with
  | error error => simp
  | ok image =>
    have hconclude : j.conclude image image.extract = .crashed ↔ image.metadata = .crashed := by
      rw [Job.conclude, Image.metadata]
      cases image.extract.result <;> simp
    simp [hconclude, Image.metadata_eq_crashed_iff]

/-- A result names the source of its job. -/
theorem source_of_run {j : Job} {r : JobResult} (h : j.run = .returned r) :
    r.source = j.source := by
  rw [run_eq] at h
  cases himage : j.slice.image j.contents with
  | error error =>
    rw [himage] at h
    cases h
    rfl
  | ok image =>
    rw [himage] at h
    obtain ⟨result, -, hr⟩ := Attempt.bind_eq_returned_iff.1 h
    cases hr
    rfl

end Job

/-- The name of a kind is the key of an entity up to the first blank. -/
private theorem EntityKind.takeWhile_key (kind : EntityKind) (name : Text) :
    (kind.key name).takeWhile (· != byte ' ') = kind.name := by
  have hkind : ∀ b ∈ kind.name, (b != byte ' ') = true := by
    cases kind <;> decide +kernel
  have hblank : StartsNot (· != byte ' ') (byte ' ' :: name) := StartsNot.cons (by decide) name
  have hkey : kind.key name = kind.name ++ byte ' ' :: name := by
    rw [key, List.append_assoc]
    rfl
  rw [hkey]
  exact (takeWhile_append_of_startsNot hkind hblank).1

/-- The keys of the table of sources tell kinds and names apart. -/
theorem EntityKind.key_inj {kind kind' : EntityKind} {name name' : Text} :
    kind.key name = kind'.key name' ↔ kind = kind' ∧ name = name' := by
  constructor
  · intro h
    have hname : kind.name = kind'.name := by
      rw [← takeWhile_key kind name, h, takeWhile_key]
    have hkind : kind = kind' := by
      cases kind <;> cases kind' <;> first | rfl | exact absurd hname (by decide)
    subst hkind
    exact ⟨rfl, List.append_cancel_left h⟩
  · rintro ⟨rfl, rfl⟩
    rfl

namespace Session

variable {host : CpuType} {archs : List Arch} {seen : List Sighting} {s : Session}

/-- The images, the flags, the decoder, the failures, the skipped records and the log of a session
do not count. -/
theorem Reflects.update (h : s.Reflects host archs seen) (images : List LoadedImage)
    (flags : SessionFlags) (decoder : DecoderCache) (failures : List Error) (skipped : List Skip)
    (log : List LogEntry) :
    Reflects host archs seen { s with images, flags, decoder, failures, skipped, log } :=
  ⟨h.host_eq, h.archs_eq, h.protocols, h.classes, h.categories, h.find?_sources, h.notes_eq⟩

/-- One more record has a note if its kind and name were seen. -/
theorem notes_concat (seen : List Sighting) (x : Sighting) :
    Sighting.notes (seen ++ [x]) = Sighting.notes seen ++
      ((seen.find? (·.id = x.id)).map fun first =>
        (⟨x.record.kind, x.record.name, first.source, x.source⟩ : Note)).toList := by
  rw [Sighting.notes, withEarlier_concat, List.filterMap_append, Sighting.notes]
  congr 1

/-- Notes are only ever added. -/
theorem notes_isPrefix (seen more : List Sighting) :
    Sighting.notes seen <+: Sighting.notes (seen ++ more) := by
  induction more using List.reverseRecOn with
  | nil => simp
  | append_singleton more x ih =>
    rw [← List.append_assoc, notes_concat]
    exact ih.trans (List.prefix_append _ _)

/-- The records of one kind, under their names. -/
def Views {β : Type} (view : Declared → Option β) (key : β → Text) (kind : EntityKind) : Prop :=
  ∀ d : Declared, (view d).map key = if d.kind = kind then some d.name else none

section Views

variable {β : Type} {view : Declared → Option β} {key : β → Text} {kind : EntityKind}

/-- A name was seen among the records of a kind if it was seen together with the kind. -/
theorem Views.any_filterMap (h : Views view key kind) (seen : List Sighting) (name : Text) :
    (seen.filterMap (view ·.record)).any (key · = name) = seen.any (·.id = (kind, name)) := by
  rw [List.any_filterMap]
  congr 1
  funext x
  have hx := h x.record
  by_cases hkind : x.record.kind = kind
  · obtain ⟨b, hb, hname⟩ : ∃ b, view x.record = some b ∧ key b = x.record.name := by
      simpa [hkind] using hx
    simp [hb, hname, Sighting.id, hkind]
  · have hnone : view x.record = none := by simpa [hkind] using hx
    simp [hnone, Sighting.id, hkind]

/-- A name is seen among the records of its kind if and only if the record is seen. -/
private theorem Views.any_key (h : Views view key kind) (seen : List Sighting) {x : Sighting}
    {b : β} (hview : view x.record = some b) :
    (seen.filterMap (view ·.record)).any (key · = key b) = seen.any (·.id = x.id) := by
  obtain ⟨hkind, hname⟩ : x.record.kind = kind ∧ x.record.name = key b := by
    simpa [hview, eq_comm] using h x.record
  rw [h.any_filterMap, Sighting.id, hkind, hname]

variable {l : List β} {index : NameIndex β} {x : Sighting}

/-- A record of another kind does not count. -/
theorem Keeps.other (h : Keeps view key seen l index) (hview : view x.record = none) :
    Keeps view key (seen ++ [x]) l index where
  list_eq := by rw [List.filterMap_append, h.list_eq]; simp [hview]
  index_lists := h.index_lists

/-- A record whose kind and name were seen does not count either. -/
theorem Keeps.repeated (h : Keeps view key seen l index) (hviews : Views view key kind)
    (hseen : seen.any (·.id = x.id) = true) : Keeps view key (seen ++ [x]) l index := by
  cases hview : view x.record with
  | none => exact h.other hview
  | some b =>
    have hsingle : [x].filterMap (view ·.record) = [b] := by simp [hview]
    refine ⟨?_, h.index_lists⟩
    rw [List.filterMap_append, hsingle, firstOccurrences_concat, hviews.any_key seen hview, hseen,
      if_pos rfl, List.append_nil, h.list_eq]

/-- A record that is new is put behind the list and written to the index. -/
theorem Keeps.new (h : Keeps view key seen l index) (hviews : Views view key kind)
    (hnew : seen.any (·.id = x.id) = false) {b : β} (hview : view x.record = some b) :
    Keeps view key (seen ++ [x]) (l ++ [b]) (index.insert (key b) b) := by
  have hsingle : [x].filterMap (view ·.record) = [b] := by simp [hview]
  have hany := (hviews.any_key seen hview).trans hnew
  refine ⟨?_, h.index_lists.insert ?_⟩
  · rw [List.filterMap_append, hsingle, firstOccurrences_concat, hany, h.list_eq,
      if_neg Bool.false_ne_true]
  · -- the list has no other names than the stream
    rw [← List.isSome_find?, h.list_eq, find?_firstOccurrences, List.isSome_find?, hany]

/-- A lookup gives the first record of a name. -/
theorem Keeps.find?_eq (h : Keeps view key seen l index) (name : Text) :
    index.find? name = (seen.filterMap (view ·.record)).find? (key · = name) := by
  rw [h.index_lists name, h.list_eq, find?_firstOccurrences]

/-- More records add to the end of the list only. -/
theorem Keeps.isPrefix (h : Keeps view key seen l index) {more : List Sighting} {l' : List β}
    {index' : NameIndex β} (h' : Keeps view key (seen ++ more) l' index') : l <+: l' := by
  rw [h.list_eq, h'.list_eq, List.filterMap_append]
  exact firstOccurrences_isPrefix _ _ _

end Views

theorem views_protocol : Views Declared.protocol? (·.name) .ofProtocol := by
  rintro (_ | _ | _) <;> rfl

theorem views_class : Views Declared.class? (·.name) .ofClass := by
  rintro (_ | _ | _) <;> rfl

theorem views_category : Views Declared.category? (·.key) .ofCategory := by
  rintro (_ | _ | _) <;> rfl

/-- The session with one more record of a source. -/
def declare (source : Text) (s : Session) : Declared → Session
  | .ofProtocol p => s.addProtocol source p
  | .ofClass c => s.addClass source c
  | .ofCategory c => s.addCategory source c

/-- The session with a record in the list and the index of its kind. -/
def keep (s : Session) : Declared → Session
  | .ofProtocol p => { s with
      model.protocols := s.model.protocols ++ [p]
      protocolIndex := s.protocolIndex.insert p.name p }
  | .ofClass c => { s with
      model.classes := s.model.classes ++ [c]
      classIndex := s.classIndex.insert c.name c }
  | .ofCategory c => { s with
      model.categories := s.model.categories ++ [c]
      categoryIndex := s.categoryIndex.insert c.key c }

/-- A record of any kind is kept if its kind and name are new. -/
theorem declare_eq (source : Text) (s : Session) (record : Declared) :
    s.declare source record =
      let claimed := s.claim record.kind record.name source
      if claimed.2 then claimed.1.keep record else claimed.1 := by
  cases record <;> rfl

/-- A kind and name that was seen gets a note, and the source that is on record stays. -/
theorem Reflects.claim_seen (h : s.Reflects host archs seen) {kind : EntityKind} {name : Text}
    {first : Sighting} (hfirst : seen.find? (·.id = (kind, name)) = some first) (source : Text) :
    ∃ log, s.claim kind name source =
      ({ s with notes := s.notes ++ [⟨kind, name, first.source, source⟩], log }, false) := by
  have hfind := h.find?_sources kind name
  rw [hfirst] at hfind
  exact ⟨_, by rw [claim, hfind]; rfl⟩

/-- A kind and name that was not seen is put on record. -/
theorem Reflects.claim_new (h : s.Reflects host archs seen) {kind : EntityKind} {name : Text}
    (hfirst : seen.find? (·.id = (kind, name)) = none) (source : Text) :
    s.claim kind name source =
      ({ s with sources := s.sources.insert (kind.key name) source }, true) := by
  have hfind := h.find?_sources kind name
  rw [hfirst] at hfind
  rw [claim, hfind]
  rfl

/-- The source of a kind and name is that of the first sighting. -/
private theorem find?_sources_concat (seen : List Sighting) (x : Sighting) (kind : EntityKind)
    (name : Text) :
    ((seen ++ [x]).find? (·.id = (kind, name))).map (·.source) =
      ((seen.find? (·.id = (kind, name))).map (·.source)).or
        (if x.id = (kind, name) then some x.source else none) := by
  rw [List.find?_append, Option.map_or]
  by_cases hid : x.id = (kind, name) <;> simp [hid]

/-- A record whose kind and name were seen changes nothing but the notes. -/
private theorem Reflects.declare_seen (h : s.Reflects host archs seen) {source : Text}
    {record : Declared} {first : Sighting}
    (hfirst : seen.find? (·.id = (record.kind, record.name)) = some first) :
    (s.declare source record).Reflects host archs (seen ++ [⟨record, source⟩]) := by
  obtain ⟨log, hclaim⟩ := h.claim_seen hfirst source
  have hseen : seen.any (·.id = Sighting.id ⟨record, source⟩) = true := by
    rw [← List.isSome_find?, Sighting.id, hfirst]
    rfl
  rw [declare_eq, hclaim]
  refine ⟨h.host_eq, h.archs_eq, h.protocols.repeated views_protocol hseen,
    h.classes.repeated views_class hseen, h.categories.repeated views_category hseen,
    fun kind name => ?_, ?_⟩
  · rw [find?_sources_concat]
    by_cases hid : Sighting.id ⟨record, source⟩ = (kind, name)
    · -- the source that is on record stays
      obtain ⟨rfl, rfl⟩ := Prod.mk.inj hid
      simp [h.find?_sources, hfirst]
    · simp [h.find?_sources, hid]
  · rw [notes_concat, Sighting.id, hfirst, h.notes_eq]
    rfl

/-- A record whose kind and name were not seen is kept with its source. -/
private theorem Reflects.declare_new (h : s.Reflects host archs seen) {source : Text}
    {record : Declared} (hfirst : seen.find? (·.id = (record.kind, record.name)) = none) :
    (s.declare source record).Reflects host archs (seen ++ [⟨record, source⟩]) := by
  have hnew : seen.any (·.id = Sighting.id ⟨record, source⟩) = false := by
    rw [← List.isSome_find?, Sighting.id, hfirst]
    rfl
  have hsources (kind : EntityKind) (name : Text) :
      (s.sources.insert (record.kind.key record.name) source).find? (kind.key name) =
        ((seen ++ [(⟨record, source⟩ : Sighting)]).find? (·.id = (kind, name))).map
          (·.source) := by
    have hkey : record.kind.key record.name = kind.key name ↔
        Sighting.id ⟨record, source⟩ = (kind, name) := by
      rw [EntityKind.key_inj, Sighting.id, Prod.mk.injEq]
    rw [NameIndex.find?_insert, find?_sources_concat, h.find?_sources]
    by_cases hid : Sighting.id ⟨record, source⟩ = (kind, name)
    · rw [if_pos (hkey.2 hid), if_pos hid, ← hid, Sighting.id, hfirst]
      rfl
    · rw [if_neg (mt hkey.1 hid), if_neg hid, Option.or_none]
  have hnotes : s.notes = Sighting.notes (seen ++ [⟨record, source⟩]) := by
    rw [notes_concat, Sighting.id, hfirst, h.notes_eq]
    exact (List.append_nil _).symm
  rw [declare_eq, h.claim_new hfirst source]
  -- only the list and the index of its own kind are written
  cases record with
  | ofProtocol p =>
    exact ⟨h.host_eq, h.archs_eq, h.protocols.new views_protocol hnew rfl, h.classes.other rfl,
      h.categories.other rfl, hsources, hnotes⟩
  | ofClass c =>
    exact ⟨h.host_eq, h.archs_eq, h.protocols.other rfl, h.classes.new views_class hnew rfl,
      h.categories.other rfl, hsources, hnotes⟩
  | ofCategory c =>
    exact ⟨h.host_eq, h.archs_eq, h.protocols.other rfl, h.classes.other rfl,
      h.categories.new views_category hnew rfl, hsources, hnotes⟩

/-- One more record keeps a session in step: it is kept with its source if it is the first with its
kind and name, and leaves a note otherwise. -/
theorem Reflects.declare (h : s.Reflects host archs seen) (source : Text) (record : Declared) :
    (s.declare source record).Reflects host archs (seen ++ [⟨record, source⟩]) := by
  cases hfirst : seen.find? (·.id = (record.kind, record.name)) with
  | some first => exact h.declare_seen hfirst
  | none => exact h.declare_new hfirst

/-- All records of a source keep a session in step. -/
theorem Reflects.foldl_declare (h : s.Reflects host archs seen) (source : Text)
    (records : List Declared) :
    (records.foldl (Session.declare source) s).Reflects host archs
      (seen ++ records.map (⟨·, source⟩)) := by
  induction records generalizing s seen with
  | nil => simpa using h
  | cons record rest ih =>
    have hrest := ih (h.declare source record)
    rwa [List.append_assoc] at hrest

/-- Declaring the records of an image is adding its protocols, its classes and its categories. -/
theorem foldl_declare_records (s : Session) (source : Text) (metadata : Metadata) :
    metadata.records.foldl (Session.declare source) s =
      metadata.categories.foldl (addCategory source)
        (metadata.classes.foldl (addClass source)
          (metadata.protocols.foldl (addProtocol source) s)) := by
  rw [Metadata.records, List.foldl_append, List.foldl_append, List.foldl_map, List.foldl_map,
    List.foldl_map]
  rfl

/-- The records of an image keep a session in step. What else is told of the image does not
count. -/
theorem Reflects.addMetadata (h : s.Reflects host archs seen) (image : LoadedImage)
    (metadata : Metadata) (source : Text) :
    (s.addMetadata image metadata source).Reflects host archs
      (seen ++ metadata.records.map (⟨·, source⟩)) := by
  have hdeclared (images : List LoadedImage) (flags : SessionFlags) (log : List LogEntry) :=
    have hbegun : Reflects host archs seen { s with images, flags, log } :=
      h.update images flags _ _ _ log
    hbegun.foldl_declare source metadata.records
  simp only [foldl_declare_records] at hdeclared
  exact (hdeclared _ _ _).update _ _ _ _ _ _

/-- The result of a job keeps a session in step, whether there are records in it or not. -/
theorem Reflects.merge (h : s.Reflects host archs seen) {j : Job} {r : JobResult}
    (hr : j.run = .returned r) : (s.merge r).Reflects host archs (seen ++ j.sightings) := by
  have hsource := Job.source_of_run hr
  obtain ⟨source, outcome, requests, log⟩ := r
  dsimp only at hsource
  subst hsource
  rw [Session.merge, Job.sightings, hr]
  cases outcome with
  | error _ =>
    rw [List.append_nil]
    exact h.update _ _ _ _ _ _
  | ok p => exact h.addMetadata p.1 p.2 j.source

/-- The results of several jobs. -/
theorem Reflects.foldl_merge (h : s.Reflects host archs seen) {jobs : List Job}
    {results : List JobResult}
    (hresults : List.Forall₂ (fun j r => Job.run j = .returned r) jobs results) :
    (results.foldl Session.merge s).Reflects host archs (seen ++ jobs.flatMap Job.sightings) := by
  induction hresults generalizing s seen with
  | nil => simpa using h
  | cons hr _ ih =>
    have hrest := ih (h.merge hr)
    rwa [List.append_assoc] at hrest

/-- The sightings of a call are those of its inputs, in their order. -/
theorem flatMap_jobs (host : CpuType) (archs : List Arch) (inputs : List Input) :
    (jobs host archs inputs).flatMap Job.sightings =
      inputs.flatMap (Input.sightings host archs) := by
  rw [jobs, List.flatMap_map, List.flatMap_assoc]
  congr 1
  funext input
  rw [Input.sightings]
  cases jobsOf host archs input <;> rfl

/-- The failures of the inputs are those that give no jobs. -/
private theorem filterMap_failure? (host : CpuType) (archs : List Arch) (inputs : List Input) :
    inputs.filterMap (Input.failure? host archs) =
      (inputs.map (jobsOf host archs)).filterMap fun
        | .error error => some error
        | .ok _ => none := by
  rw [List.filterMap_map]
  rfl

/-- A load crashes if and only if it runs a job that does. -/
theorem load_eq_crashed_iff (s : Session) (inputs : List Input) (cancelled : Bool) :
    s.load inputs cancelled = .crashed ↔
      cancelled = false ∧ ∃ j ∈ jobs s.host s.archs inputs, j.Crashes := by
  simp only [← Job.run_eq_crashed_iff, ← Attempt.mapM_eq_crashed_iff]
  by_cases h : (cancelled && !(jobs s.host s.archs inputs).isEmpty) = true
  · have hload : s.load inputs cancelled = _ := if_pos h
    rw [hload]
    simp_all
  · have hload : s.load inputs cancelled =
        (jobs s.host s.archs inputs).mapM Job.run >>= _ := if_neg h
    rw [hload]
    cases hresults : (jobs s.host s.archs inputs).mapM Job.run with
    | crashed =>
      have hjobs : jobs s.host s.archs inputs ≠ [] := by
        intro hnil
        rw [hnil] at hresults
        cases hresults
      exact iff_of_true rfl ⟨by simpa [hjobs] using h, rfl⟩
    | returned results => exact iff_of_false (by rintro ⟨⟩) (by simp)

/-- A load that returns: if it was cancelled it changes only the log, and otherwise it writes down
the inputs that failed and merges what its jobs found. -/
theorem load_cases {inputs : List Input} {cancelled : Bool} {after : Session}
    {error? : Option Error} (h : s.load inputs cancelled = .returned (after, error?)) :
    (cancelled = true ∧ ∃ log, after = { s with log }) ∨
      (cancelled = true → jobs s.host s.archs inputs = []) ∧ ∃ results decoder log,
        List.Forall₂ (fun j r => Job.run j = .returned r) (jobs s.host s.archs inputs) results ∧
        after = results.foldl merge { s with
          decoder, log
          failures := s.failures ++ inputs.filterMap (Input.failure? s.host s.archs) } ∧
        error? = if (results.any fun r => r.outcome.isOk) || inputs.isEmpty then none
          else loadError? (inputs.filterMap (Input.failure? s.host s.archs)) results := by
  by_cases hcancelled : (cancelled && !(jobs s.host s.archs inputs).isEmpty) = true
  · left
    have hload : s.load inputs cancelled = _ := if_pos hcancelled
    rw [hload] at h
    cases h
    exact ⟨(Bool.and_eq_true_iff.1 hcancelled).1, _, rfl⟩
  · right
    have hload : s.load inputs cancelled = _ := if_neg hcancelled
    rw [hload] at h
    obtain ⟨results, hresults, hafter⟩ := Attempt.bind_eq_returned_iff.1 h
    rw [filterMap_failure?]
    cases hafter
    exact ⟨by simpa using hcancelled, results, _, _, Attempt.mapM_eq_returned_iff.1 hresults, rfl,
      rfl⟩

/-- A load that returns keeps a session in step. It declares the records of all its inputs or, if it
was cancelled, none. -/
theorem Reflects.load (h : s.Reflects host archs seen) {inputs : List Input} {cancelled : Bool}
    {after : Session} {error? : Option Error}
    (hload : s.load inputs cancelled = .returned (after, error?)) :
    after.Reflects host archs
      (seen ++ if cancelled then [] else inputs.flatMap (Input.sightings host archs)) := by
  obtain rfl := h.archs_eq
  obtain rfl := h.host_eq
  -- a load that was cancelled is not told apart from others if it has no jobs
  rcases load_cases hload with
    ⟨rfl, log, rfl⟩ | ⟨hnone, results, decoder, log, hresults, hafter, -⟩
  · rw [if_pos rfl, List.append_nil]
    exact h.update _ _ _ _ _ log
  · have hmerged := (h.update s.images s.flags decoder (s.failures ++
      inputs.filterMap (Input.failure? s.host s.archs)) s.skipped log).foldl_merge hresults
    rw [← hafter] at hmerged
    cases cancelled with
    | false => rwa [flatMap_jobs] at hmerged
    | true => rwa [hnone rfl] at hmerged

/-- A call crashes if and only if it reads a slice whose metadata do. -/
theorem run_eq_crashed_iff (s : Session) (call : LoadCall) :
    call.run s = .crashed ↔ call.Crashes s.host s.archs := by
  cases call with
  | bytes name contents cancelled => exact s.load_eq_crashed_iff _ cancelled
  | files dir paths cancelled =>
    rw [LoadCall.run, loadFiles]
    split
    · rename_i hcancelled
      have hcancelled : cancelled = true := (Bool.and_eq_true_iff.1 hcancelled).1
      simp [LoadCall.Crashes, LoadCall.isCancelled, hcancelled]
    · exact s.load_eq_crashed_iff _ cancelled

/-- A call that returns keeps a session in step. -/
theorem Reflects.run (h : s.Reflects host archs seen) {call : LoadCall} {after : Session}
    {error? : Option Error} (hrun : call.run s = .returned (after, error?)) :
    after.Reflects host archs (seen ++ call.sightings host archs) := by
  cases call with
  | bytes name contents cancelled => exact h.load hrun
  | files dir paths cancelled =>
    rw [LoadCall.run, loadFiles] at hrun
    split at hrun
    · rename_i hcancelled
      cases hrun
      have hcancelled : cancelled = true := (Bool.and_eq_true_iff.1 hcancelled).1
      rw [LoadCall.sightings, LoadCall.isCancelled, if_pos hcancelled, List.append_nil]
      exact h
    · exact h.load hrun

/-- Any sequence of calls crashes if one of them does, and otherwise keeps a session in step. -/
theorem Reflects.runAll (h : s.Reflects host archs seen) (calls : List LoadCall) :
    (s.runAll calls = .crashed ↔ ∃ call ∈ calls, call.Crashes host archs) ∧
      ∀ after, s.runAll calls = .returned after →
        after.Reflects host archs (seen ++ calls.flatMap (LoadCall.sightings host archs)) := by
  induction calls generalizing s seen with
  | nil =>
    refine ⟨by simp [Session.runAll], fun after hafter => ?_⟩
    cases hafter
    rw [List.flatMap_nil, List.append_nil]
    exact h
  | cons call rest ih =>
    have hcrashed := s.run_eq_crashed_iff call
    rw [h.host_eq, h.archs_eq] at hcrashed
    rw [Session.runAll, List.foldlM_cons, List.exists_mem_cons_iff, ← hcrashed]
    cases hrun : call.run s with
    | crashed => exact ⟨by simp, fun _ h => by cases h⟩
    | returned result =>
      obtain ⟨hiff, hreflects⟩ := ih (h.run hrun)
      rw [List.flatMap_cons, ← List.append_assoc]
      exact ⟨by simpa [Session.runAll] using hiff, hreflects⟩

/-- A new session has seen nothing. -/
theorem Reflects.of_new {config : SessionConfig} (h : Session.new host config = .ok s) :
    s.Reflects host s.archs [] := by
  simp only [Session.new, bind, Except.bind] at h
  split at h
  · cases h
  split at h
  · cases h
  cases h
  exact ⟨rfl, rfl, ⟨rfl, NameIndex.lists_nil _⟩, ⟨rfl, NameIndex.lists_nil _⟩,
    ⟨rfl, NameIndex.lists_nil _⟩, fun _ _ => rfl, rfl⟩

/-- First definitions win. Unless a call reads a slice whose metadata crash the program, after any
calls the lists of a session are the first occurrences of each protocol name, class name and
category key in the stream of records, lookups in the indices give the first record of a name, which
is the one in the list, and there is a note for each later occurrence, all in the order of the
stream. A further call adds to the lists and the notes at their ends only. -/
theorem first_seen_wins {host : CpuType} {config : SessionConfig} {start : Session}
    (hnew : Session.new host config = .ok start) (calls : List LoadCall) :
    let seen := calls.flatMap (LoadCall.sightings host start.archs)
    let protocols := seen.filterMap (·.record.protocol?)
    let classes := seen.filterMap (·.record.class?)
    let categories := seen.filterMap (·.record.category?)
    (start.runAll calls = .crashed ↔ ∃ call ∈ calls, call.Crashes host start.archs) ∧
    ∀ s, start.runAll calls = .returned s →
      (s.model.protocols = firstOccurrences (·.name) protocols ∧
        s.model.classes = firstOccurrences (·.name) classes ∧
        s.model.categories = firstOccurrences (·.key) categories) ∧
      (∀ name, s.protocol? name = protocols.find? (·.name = name) ∧
        s.class? name = classes.find? (·.name = name) ∧
        s.category? name = categories.find? (·.key = name)) ∧
      (∀ name, s.protocol? name = s.model.protocols.find? (·.name = name) ∧
        s.class? name = s.model.classes.find? (·.name = name) ∧
        s.category? name = s.model.categories.find? (·.key = name)) ∧
      s.notes = Sighting.notes seen ∧
      ∀ (call : LoadCall) (after : Session) (error? : Option Error),
        call.run s = .returned (after, error?) →
        s.model.protocols <+: after.model.protocols ∧ s.model.classes <+: after.model.classes ∧
          s.model.categories <+: after.model.categories ∧ s.notes <+: after.notes := by
  intro seen protocols classes categories
  obtain ⟨hcrashed, hreturned⟩ := (Reflects.of_new hnew).runAll calls
  refine ⟨hcrashed, fun s hs => ?_⟩
  have h : s.Reflects host start.archs seen := hreturned s hs
  refine ⟨⟨h.protocols.list_eq, h.classes.list_eq, h.categories.list_eq⟩,
    fun name => ⟨h.protocols.find?_eq name, h.classes.find?_eq name, h.categories.find?_eq name⟩,
    fun name => ⟨h.protocols.index_lists name, h.classes.index_lists name,
      h.categories.index_lists name⟩, h.notes_eq, fun call after error? hrun => ?_⟩
  -- one more call sights more elements behind those seen before, so every list only grows
  have hafter := h.run hrun
  refine ⟨h.protocols.isPrefix hafter.protocols, h.classes.isPrefix hafter.classes,
    h.categories.isPrefix hafter.categories, ?_⟩
  rw [h.notes_eq, hafter.notes_eq]
  exact notes_isPrefix _ _

/-- A file with a protocol `P` that has a method `v` of the type `v`. -/
def sampleFile : Contents :=
  let words (values : List UInt32) : Text := values.flatMap ByteOrder.big.bytes32
  let header := words [0xFEEDFACE, 7, 3, 6, 1, 192, 0]
  let segment := words [1, 192] ++ Draft.nameField "__DATA" ++
    words [0x1000, 0x200, 0, 288, 3, 3, 2, 0]
  let list := Draft.nameField "__objc_protolist" ++ Draft.nameField "__DATA" ++
    words [0x10DC, 4, 0xDC, 2, 0, 0, 0, 0, 0]
  let records := Draft.nameField "__const" ++ Draft.nameField "__DATA" ++
    words [0x10E0, 64, 0xE0, 2, 0, 0, 0, 0, 0]
  let protocolRecord := words [0, 0x111C, 0, 0x1108, 0, 0, 0, 0, 40, 0]
  let methodList := words [12, 1, 0x111E, 0x111E, 0]
  (header ++ segment ++ list ++ records ++ words [0x10E0] ++ protocolRecord ++ methodList ++
    [byte 'P', 0, byte 'v', 0]).toArray

/-- The only slice of the file. -/
private def sampleSlice : Slice := ⟨7, 3, 0, 288, 0⟩

/-- The sample file is one job. -/
private theorem jobsOf_sampleFile (name : Text) :
    jobsOf .x86_64 [] ⟨name, .ok sampleFile⟩ = .ok [⟨name, sampleFile, sampleSlice⟩] := by
  have hslices : Slice.ofContents sampleFile (some sampleFile.size) = .ok [sampleSlice] :=
    Except.toOption_eq_some_iff.1 (by decide +kernel)
  simp only [jobsOf, selectSlices, hslices]
  rfl

/-- The protocol is the only record of the file. -/
private theorem exists_sampleFile_records : ∃ image m p, sampleSlice.image sampleFile = .ok image ∧
    image.metadata = .returned (.ok m) ∧ m.records = [.ofProtocol p] ∧
    p.name = Text.ofString "P" := by
  have hread : ((Image.ofContents sampleFile 288 0).toOption.bind fun image =>
      image.metadata.returned?.bind fun result => result.toOption.map fun m =>
        (m.protocols.map (·.name), m.classes.length, m.categories.length)) =
      some ([Text.ofString "P"], 0, 0) := by decide +kernel
  obtain ⟨image, himage, hread⟩ := Option.bind_eq_some_iff.1 hread
  obtain ⟨result, hresult, hread⟩ := Option.bind_eq_some_iff.1 hread
  obtain ⟨m, hm, hfields⟩ := Option.map_eq_some_iff.1 hread
  simp only [Prod.mk.injEq, List.length_eq_zero_iff, List.map_eq_singleton_iff] at hfields
  obtain ⟨⟨p, hprotocols, hname⟩, hclasses, hcategories⟩ := hfields
  obtain rfl := Except.toOption_eq_some_iff.1 hm
  refine ⟨image, m, p, ?_, Attempt.returned?_eq_some_iff.1 hresult, ?_, hname⟩
  · have hsize : sampleFile.size = 288 := by decide +kernel
    have hbytes : sampleSlice.bytes sampleFile = sampleFile :=
      Array.extract_eq_self_of_le hsize.le
    rw [Slice.image, hbytes, Image.ofSlice_eq_of_size_le hsize.le]
    exact Except.toOption_eq_some_iff.1 himage
  · simp [Metadata.records, hprotocols, hclasses, hcategories]

/-- Two files with a protocol of the same name, a damaged one between them, and a call that is
cancelled. -/
private def repeatedCalls : List LoadCall :=
  [.bytes "App" sampleFile false, .bytes "Bad" #[0xCF, 0xFA, 0xED, 0xFE, 7] false,
    .bytes "Lib" sampleFile false, .files {} ["App"] true]

/-- The protocol of the first file is kept and found by its name, and that of the last one is
noted. -/
theorem first_seen_wins_repeatedCalls : ∃ start s p, Session.new .x86_64 {} = .ok start ∧
    start.runAll repeatedCalls = .returned s ∧ s.model.protocols = [p] ∧
    p.name = Text.ofString "P" ∧ s.protocol? "P" = some p ∧
    s.notes = [⟨.ofProtocol, "P", "App[i386]", "Lib[i386]"⟩] := by
  obtain ⟨image, m, p, himage, hmetadata, hrecords, hname⟩ := exists_sampleFile_records
  have hrun (name : Text) : ∃ requests log,
      Job.run ⟨name, sampleFile, sampleSlice⟩ = .returned {
        source := sourceName name sampleSlice.arch
        outcome := .ok (⟨name, sampleSlice.arch, image⟩, m), requests, log } := by
    refine ⟨image.extract.requests, image.encryptionLog ++ image.extract.log, ?_⟩
    rw [Job.run_eq, himage]
    change (image.metadata >>= _) = _
    rw [hmetadata]
    rfl
  have hsightings (name : Text) : Job.sightings ⟨name, sampleFile, sampleSlice⟩ =
      [⟨.ofProtocol p, sourceName name sampleSlice.arch⟩] := by
    obtain ⟨requests, log, h⟩ := hrun name
    rw [Job.sightings, h]
    simp only [hrecords]
    rfl
  have hcalm (name : Text) : ¬Job.Crashes ⟨name, sampleFile, sampleSlice⟩ := by
    obtain ⟨requests, log, h⟩ := hrun name
    rw [← Job.run_eq_crashed_iff, h]
    rintro ⟨⟩
  obtain ⟨error, hbad⟩ : ∃ error,
      jobsOf .x86_64 [] ⟨"Bad", .ok #[0xCF, 0xFA, 0xED, 0xFE, 7]⟩ = .error error := by
    have hnone : (jobsOf .x86_64 [] ⟨"Bad", .ok #[0xCF, 0xFA, 0xED, 0xFE, 7]⟩).toOption = none := by
      decide +kernel
    cases h : jobsOf .x86_64 [] ⟨"Bad", .ok #[0xCF, 0xFA, 0xED, 0xFE, 7]⟩ with
    | error error => exact ⟨error, rfl⟩
    | ok jobs => simp [h, Except.toOption] at hnone
  have hseen : repeatedCalls.flatMap (LoadCall.sightings .x86_64 []) =
      [⟨.ofProtocol p, "App[i386]"⟩, ⟨.ofProtocol p, "Lib[i386]"⟩] := by
    simp only [repeatedCalls, LoadCall.sightings, LoadCall.isCancelled, LoadCall.inputs,
      List.flatMap_cons, List.flatMap_nil, Input.sightings, jobsOf_sampleFile, hsightings, hbad]
    rfl
  have hnew : Session.new .x86_64 {} = .ok { host := .x86_64 } := rfl
  obtain ⟨hcrashed, hreturned⟩ := first_seen_wins hnew repeatedCalls
  dsimp only at hcrashed hreturned
  rw [hseen] at hreturned
  obtain ⟨s, hs⟩ := Attempt.ne_crashed_iff.1 (mt hcrashed.1 (by
    simp [repeatedCalls, LoadCall.Crashes, LoadCall.isCancelled, LoadCall.inputs, jobs,
      jobsOf_sampleFile, hbad, hcalm]))
  obtain ⟨⟨hprotocols, -, -⟩, hlookup, -, hnotes, -⟩ := hreturned s hs
  refine ⟨_, s, p, hnew, hs, hprotocols.trans ?_, hname, (hlookup _).1.trans ?_, hnotes.trans ?_⟩
  · simp [firstOccurrences, withEarlier, Declared.protocol?]
  · simp [Declared.protocol?, hname]
  · simp [Sighting.notes, withEarlier, Sighting.id, Declared.kind, Declared.name, hname]

end Session

end ObjcLens
