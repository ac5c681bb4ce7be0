import Mathlib
import ObjcLens.Record.Metadata

/-!
# What readers of records give

A reader of records gives a value or an error and keeps names, requests and log entries. `Yields`
says that it gives a value, asks for nothing and keeps nothing. `Reads` says that it gives a value
if every encoding is decoded as it is found, whatever names it has kept so far, as long as these are
the names in the image; they still are afterwards.

## Main results

* `run_bind`, `run_tryCatch`: how readers run that are put together.
* `exists_of_mem_entriesFrom`: the items of a list are read one by one.
* `Reads.bind`, `Reads.mapM`, `Reads.annotating`: readers that are put together.
* `Reads.className`, `Reads.protocolName`: a name is the same whether it is kept or read.
-/

namespace ObjcLens

/-- The method with another signature, unless that is empty. -/
def Method.withTypes (m : Method) (types : Text) : Method :=
  if types.isEmpty then m else { m with types, type := some (MethodType.decode types) }

namespace RecordReader

section Run

variable {α β : Type} (context : Context) (progress : Progress)

/-- Steps follow each other until one of them fails. -/
theorem run_bind (m : RecordReader α) (f : α → RecordReader β) :
    ((m >>= f) context progress).run = match (m context progress).run with
      | (.ok a, after) => (f a context after).run
      | (.error e, after) => (.error e, after) := by
  change (m context progress >>= fun p => ExceptT.bindCont (fun x => f x context) p.1 p.2).run = _
  rw [Dialogue.run_bind]
  rcases (m context progress).run with ⟨_ | _, after⟩ <;> rfl

/-- A reader that gives a value has a value from its first step. -/
theorem exists_of_run_bind {m : RecordReader α} {f : α → RecordReader β} {b : β} {after : Progress}
    (h : ((m >>= f) context progress).run = (.ok b, after)) :
    ∃ a middle, (m context progress).run = (.ok a, middle) ∧
      (f a context middle).run = (.ok b, after) := by
  rw [run_bind] at h
  rcases hm : (m context progress).run with ⟨e | a, middle⟩
  · rw [hm] at h
    cases h
  · rw [hm] at h
    exact ⟨a, middle, rfl, h⟩

/-- A handler goes on from the progress made before the failure. -/
theorem run_tryCatch (m : RecordReader α) (f : Error → RecordReader α) :
    ((tryCatch m f) context progress).run = match (m context progress).run with
      | (.ok a, after) => (.ok a, after)
      | (.error e, after) => (f e context after).run := by
  change (m context progress >>= fun p => _).run = _
  rw [Dialogue.run_bind]
  rcases (m context progress).run with ⟨_ | _, after⟩ <;> rfl

variable {context progress} in
/-- Each item of a list was read at some address. -/
theorem exists_of_mem_entriesFrom {item : UInt64 → RecordReader α} {size : UInt64}
    {count : Nat} {addr : UInt64} {items : List α} {after : Progress}
    (h : (entriesFrom item size count addr context progress).run = (.ok items, after)) {a : α}
    (ha : a ∈ items) :
    ∃ place before behind, (item place context before).run = (.ok a, behind) := by
  induction count generalizing addr progress after items with
  | zero =>
    obtain rfl : [] = items := Except.ok.inj (Prod.mk.inj h).1
    cases ha
  | succ count ih =>
    obtain ⟨first, middle, hfirst, h⟩ := exists_of_run_bind _ _ h
    obtain ⟨rest, last, hrest, h⟩ := exists_of_run_bind _ _ h
    obtain rfl : first :: rest = items := Except.ok.inj (Prod.mk.inj h).1
    rcases List.mem_cons.1 ha with rfl | ha
    · exact ⟨addr, progress, middle, hfirst⟩
    · exact ih hrest ha

end Run

section Yields

variable {context : Context} {α β : Type}

/-- The reader gives the value, asks for nothing and keeps nothing. -/
def Yields (context : Context) (m : RecordReader α) (a : α) : Prop :=
  ∀ progress, m context progress = pure (.ok a, progress)

theorem Yields.pure (a : α) : Yields context (pure a) a := fun _ => rfl

/-- A reader gives one value only. -/
theorem Yields.unique {m : RecordReader α} {a b : α} (ha : Yields context m a)
    (hb : Yields context m b) : a = b := by
  have heq := congrArg Dialogue.run ((ha default).symm.trans (hb default))
  exact Except.ok.inj (congrArg Prod.fst heq)

theorem Yields.bind {m : RecordReader α} {f : α → RecordReader β} {a : α} {b : β}
    (hm : Yields context m a) (hf : Yields context (f a) b) : Yields context (m >>= f) b := by
  intro progress
  change (m context progress >>= fun p => ExceptT.bindCont (fun x => f x context) p.1 p.2) = _
  rw [hm progress, pure_bind]
  exact hf progress

theorem Yields.read_bind {f : Context → RecordReader β} {b : β}
    (hf : Yields context (f context) b) : Yields context (read >>= f) b := hf

theorem Yields.ofExcept {result : Except Error α} {a : α} (h : result = .ok a) :
    Yields context (ofExcept result) a := by
  rw [h]
  exact Yields.pure a

theorem Yields.pointerSize :
    Yields context pointerSize context.image.pointerSize.toUInt64 := fun _ => rfl

end Yields

/-- The record at the address has the name, as the class reader sees it. -/
def ClassNamed (context : Context) (addr : UInt64) (name : Text) : Prop :=
  Yields context (do text (← dataOf (← classRecord addr)).name) name

/-- The record at the address has the name, as the protocol reader sees it. -/
def ProtocolNamed (context : Context) (addr : UInt64) (name : Text) : Prop :=
  Yields context (do text (← pointerAt (addr + (← pointerSize))).addr) name

/-- The names that were kept are those in the image. -/
structure Faithful (context : Context) (progress : Progress) : Prop where
  classNames : ∀ entry ∈ progress.classNames, ClassNamed context entry.1 entry.2
  protocolNames : ∀ entry ∈ progress.protocolNames, ProtocolNamed context entry.1 entry.2

/-- The reader gives the value, and the names that it keeps are those in the image. -/
def Reads {α : Type} (context : Context) (m : RecordReader α) (a : α) : Prop :=
  ∀ progress, Faithful context progress →
    ∃ after, (m context progress).run = (.ok a, after) ∧ Faithful context after

namespace Reads

variable {context : Context} {α β : Type}

theorem of_yields {m : RecordReader α} {a : α} (h : Yields context m a) : Reads context m a :=
  fun progress hprogress => ⟨progress, congrArg Dialogue.run (h progress), hprogress⟩

theorem pure (a : α) : Reads context (pure a) a := of_yields (Yields.pure a)

theorem bind {m : RecordReader α} {f : α → RecordReader β} {a : α} {b : β}
    (hm : Reads context m a) (hf : Reads context (f a) b) : Reads context (m >>= f) b := by
  intro progress hprogress
  obtain ⟨middle, hmiddle, hfaithful⟩ := hm progress hprogress
  rw [run_bind, hmiddle]
  exact hf middle hfaithful

/-- A choice between two steps in front of others. -/
theorem ite_bind {c : Prop} [Decidable c] {m n : RecordReader α} {f : α → RecordReader β} {a : α}
    {b : β} (hm : Reads context (if c then m else n) a) (hf : Reads context (f a) b) :
    Reads context (if c then m >>= f else n >>= f) b := by
  split
  · rename_i hc
    rw [if_pos hc] at hm
    exact hm.bind hf
  · rename_i hc
    rw [if_neg hc] at hm
    exact hm.bind hf

theorem read_bind {f : Context → RecordReader β} {b : β} (hf : Reads context (f context) b) :
    Reads context (read >>= f) b := hf

/-- A step that gives a value raises no error that could be caught. -/
theorem tryCatch {m : RecordReader α} {a : α} (hm : Reads context m a)
    (handler : Error → RecordReader α) : Reads context (tryCatch m handler) a := by
  intro progress hprogress
  obtain ⟨after, hafter, hfaithful⟩ := hm progress hprogress
  exact ⟨after, by rw [run_tryCatch, hafter], hfaithful⟩

theorem annotating {m : RecordReader α} {a : α} (hm : Reads context m a) (record field : Text) :
    Reads context (annotating record field m) a :=
  hm.tryCatch _

/-- A list of readers gives the list of what each gives. -/
theorem mapM {f : β → RecordReader α} {l : List β} {as : List α}
    (hf : List.Forall₂ (fun b a => Reads context (f b) a) l as) : Reads context (l.mapM f) as := by
  induction hf with
  | nil => exact pure _
  | cons hfirst _ ih =>
    rw [List.mapM_cons]
    exact hfirst.bind (ih.bind (pure _))

/-- What is noted leaves the names as they are. -/
theorem note (entry : LogEntry) : Reads context (note entry) () :=
  fun _ h => ⟨_, rfl, h.classNames, h.protocolNames⟩

theorem decodeType (encoding : Text) :
    Reads context (decodeType encoding) (ObjcType.parse encoding) :=
  fun _ h => ⟨_, rfl, h.classNames, h.protocolNames⟩

theorem decodeMethod (encoding : Text) :
    Reads context (decodeMethod encoding) (MethodType.decode encoding) :=
  fun _ h => ⟨_, rfl, h.classNames, h.protocolNames⟩

theorem extendMethod (m : Method) (types : Text) :
    Reads context (extendMethod m types) (m.withTypes types) := by
  unfold RecordReader.extendMethod Method.withTypes
  split
  · exact pure m
  · exact (decodeMethod types).bind (pure _)

/-- The methods get their signatures one by one. Those that they do not use are left over. -/
theorem extendMethods {ms : List Method} {texts : List Text} (hlength : ms.length ≤ texts.length) :
    Reads context (extendMethods ms texts)
      (List.zipWith Method.withTypes ms texts, texts.drop ms.length) := by
  induction ms generalizing texts with
  | nil => exact pure _
  | cons m ms ih =>
    cases texts with
    | nil => simp at hlength
    | cons types texts =>
      exact (extendMethod m types).bind ((ih (by simpa using hlength)).bind (pure _))

/-- The name of a class may be kept. -/
theorem keepClassName {addr : UInt64} {name : Text} (h : ClassNamed context addr name) :
    Reads context (modify fun p => { p with classNames := (addr, name) :: p.classNames }) () :=
  fun _ hp => ⟨_, rfl, List.forall_mem_cons.2 ⟨h, hp.classNames⟩, hp.protocolNames⟩

/-- The name of a protocol may be kept. -/
theorem keepProtocolName {addr : UInt64} {name : Text} (h : ProtocolNamed context addr name) :
    Reads context
      (modify fun p => { p with protocolNames := (addr, name) :: p.protocolNames }) () :=
  fun _ hp => ⟨_, rfl, hp.classNames, List.forall_mem_cons.2 ⟨h, hp.protocolNames⟩⟩

/-- A name is looked up among those that were kept, if this is allowed, and read otherwise. -/
private theorem lookup {entries : List (UInt64 × Text)} {addr : UInt64} {name : Text}
    (hknown : ∀ entry ∈ entries, entry.1 = addr → entry.2 = name) {fresh : RecordReader Text}
    (hfresh : Reads context fresh name) (remember : Bool) :
    Reads context (match remember,
        (entries.find? fun entry => entry.1 = addr).map (·.2) with
      | true, some name => Pure.pure name
      | _, _ => fresh) name := by
  cases remember with
  | false => exact hfresh
  | true =>
    cases hfound : entries.find? fun entry => entry.1 = addr with
    | none => exact hfresh
    | some entry =>
      -- what is kept for the address is the name, so a fresh read is not needed
      have haddr : entry.1 = addr := by simpa using List.find?_some hfound
      rw [← hknown entry (List.mem_of_find?_eq_some hfound) haddr]
      exact pure _

/-- The name of a class is the same whether it is kept or read. -/
theorem className {addr : UInt64} {name : Text} (h : ClassNamed context addr name) :
    Reads context (className addr) name := by
  have hfresh : Reads context (do
      let name ← (do text (← dataOf (← classRecord addr)).name)
      modify fun p => { p with classNames := (addr, name) :: p.classNames }
      return name) name :=
    (of_yields h).bind ((keepClassName h).bind (pure name))
  simp only [bind_assoc] at hfresh
  intro progress hprogress
  refine lookup (fun entry hentry haddr => ?_) hfresh context.rememberNames progress hprogress
  have hnamed := hprogress.classNames entry hentry
  rw [haddr] at hnamed
  exact hnamed.unique h

/-- The name of a protocol is the same whether it is kept or read. -/
theorem protocolName {addr : UInt64} {name : Text} (h : ProtocolNamed context addr name) :
    Reads context (protocolName addr) name := by
  have hfresh : Reads context (do
      let name ← (do text (← pointerAt (addr + (← pointerSize))).addr)
      modify fun p => { p with protocolNames := (addr, name) :: p.protocolNames }
      return name) name :=
    (of_yields h).bind ((keepProtocolName h).bind (pure name))
  simp only [bind_assoc] at hfresh
  intro progress hprogress
  refine lookup (fun entry hentry haddr => ?_) hfresh context.rememberNames progress hprogress
  have hnamed := hprogress.protocolNames entry hentry
  rw [haddr] at hnamed
  exact hnamed.unique h

end Reads

end RecordReader

end ObjcLens
