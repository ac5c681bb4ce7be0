import Mathlib
import ObjcLens.Proofs.Except
import ObjcLens.Proofs.Record.Compose
import ObjcLens.Proofs.Record.Reads

/-!
# Kept names make no difference

A reader of records keeps the names of the classes and protocols that it comes across, and may look
up a kept name instead of reading it again. `alone` is what a reader gives if none is kept. A reader
is `Steady` if it gives the same whatever names have been kept, as long as they are those in the
image.

## Main results

* `Steady.bind`, `Steady.tryCatch`: readers that are put together.
* `Steady.className`, `Steady.protocolName`: names are looked up or read.
* `compositional_steady`: all readers of records are steady.
-/

namespace ObjcLens

/-- The same context, with kept names looked up or not. -/
def Context.remembering (context : Context) (remember : Bool) : Context :=
  { context with rememberNames := remember }

namespace RecordReader

variable {α β : Type}

/-- What a reader gives if it looks up no names. -/
def alone (context : Context) (m : RecordReader α) : Except Error α :=
  (m (context.remembering false) {}).run.1

/-- A reader on its own returns what it returns without a memory, whatever it leaves noted. -/
theorem alone_eq_ok_iff {context : Context} {m : RecordReader α} {a : α} :
    m.alone context = .ok a ↔
      ∃ after, (m (context.remembering false) {}).run = (.ok a, after) := by
  constructor
  · intro h
    exact ⟨_, Prod.ext h rfl⟩
  · rintro ⟨after, h⟩
    rw [alone, h]

/-- What is read in any context is read alone. -/
theorem Reads.alone_eq {context : Context} {m : RecordReader α} {a : α}
    (h : Reads (context.remembering false) m a) : m.alone context = .ok a := by
  obtain ⟨after, hrun, -⟩ := h {} ⟨by simp, by simp⟩
  rw [alone, hrun]

/-- The name of the class record at an address. -/
def nameOfClass (addr : UInt64) : RecordReader Text := do
  text (← dataOf (← classRecord addr)).name

/-- The name of the protocol record at an address. -/
def nameOfProtocol (addr : UInt64) : RecordReader Text := do
  text (← pointerAt (addr + (← pointerSize))).addr

/-- The names that were kept are those in the image. -/
structure KeepsNames (context : Context) (progress : Progress) : Prop where
  classNames : ∀ entry ∈ progress.classNames,
    (nameOfClass entry.1).alone context = .ok entry.2
  protocolNames : ∀ entry ∈ progress.protocolNames,
    (nameOfProtocol entry.1).alone context = .ok entry.2

theorem KeepsNames.of_names_eq {context : Context} {progress after : Progress}
    (h : KeepsNames context progress) (hclass : after.classNames = progress.classNames)
    (hprotocol : after.protocolNames = progress.protocolNames) : KeepsNames context after :=
  ⟨hclass ▸ h.classNames, hprotocol ▸ h.protocolNames⟩

/-- The reader gives what it gives alone, whatever names have been kept, and the names that it keeps
are those in the image. -/
def Steady (context : Context) (m : RecordReader α) : Prop :=
  ∀ remember progress, KeepsNames context progress →
    ∃ after, (m (context.remembering remember) progress).run = (m.alone context, after) ∧
      KeepsNames context after

variable {context : Context}

/-- Nothing is remembered at the start. -/
theorem KeepsNames.empty : KeepsNames context {} := ⟨by simp, by simp⟩

section Combinators

variable {m : RecordReader α} {f : α → RecordReader β}

/-- In front of a steady reader others may have run. -/
theorem alone_bind (hm : Steady context m)
    (hf : ∀ a, m.alone context = .ok a → Steady context (f a)) :
    (m >>= f).alone context = m.alone context >>= fun a => (f a).alone context := by
  obtain ⟨after, hrun, hafter⟩ := hm false {} .empty
  rw [alone, run_bind, hrun]
  cases hresult : m.alone context with
  | error e => rfl
  | ok a =>
    obtain ⟨after', hrun', -⟩ := hf a hresult false after hafter
    simp only [hrun']
    rfl

/-- A steady reader that gives a value alone has one from its first step alone. -/
theorem exists_of_alone_bind (hm : Steady context m) (hf : ∀ a, Steady context (f a)) {b : β}
    (h : (m >>= f).alone context = .ok b) :
    ∃ a, m.alone context = .ok a ∧ (f a).alone context = .ok b := by
  rw [alone_bind hm fun a _ => hf a] at h
  exact Except.bind_eq_ok_iff.1 h

/-- A step with a value leaves kept names as they have to be for the next one. -/
theorem Steady.exists_of_run_bind (hm : Steady context m) {remember : Bool}
    {progress after : Progress} (hprogress : KeepsNames context progress) {b : β}
    (h : ((m >>= f) (context.remembering remember) progress).run = (.ok b, after)) :
    ∃ a middle, m.alone context = .ok a ∧ KeepsNames context middle ∧
      (f a (context.remembering remember) middle).run = (.ok b, after) := by
  obtain ⟨middle, hrun, hmiddle⟩ := hm remember progress hprogress
  rw [run_bind, hrun] at h
  cases hresult : m.alone context with
  | error e =>
    rw [hresult] at h
    cases h
  | ok a =>
    rw [hresult] at h
    exact ⟨a, middle, rfl, hmiddle, h⟩

/-- A failure that is caught is caught on its own as well. -/
theorem alone_tryCatch {handler : Error → RecordReader α} (hm : Steady context m)
    (hf : ∀ e, Steady context (handler e)) :
    (tryCatch m handler).alone context = match m.alone context with
      | .ok a => .ok a
      | .error e => (handler e).alone context := by
  obtain ⟨after, hrun, hafter⟩ := hm false {} .empty
  rw [alone, run_tryCatch, hrun]
  cases m.alone context with
  | ok a => rfl
  | error e =>
    obtain ⟨after', hrun', -⟩ := hf e false after hafter
    simp only [hrun']

/-- A reader may look at the context, but not at whether kept names are looked up. -/
theorem alone_read_bind {f : Context → RecordReader β}
    (hsame : ∀ remember, f (context.remembering remember) = f context) :
    (read >>= f).alone context = (f context).alone context := by
  change (f (context.remembering false) (context.remembering false) {}).run.1 = _
  rw [hsame]
  rfl

namespace Steady

/-- A reader that depends on no kept names and keeps none. -/
theorem of_result {r : Except Error α}
    (h : ∀ remember progress, ∃ after,
      (m (context.remembering remember) progress).run = (r, after) ∧
      after.classNames = progress.classNames ∧ after.protocolNames = progress.protocolNames) :
    Steady context m := by
  obtain ⟨_, halone, -⟩ := h false {}
  intro remember progress hprogress
  obtain ⟨after, hrun, hclass, hprotocol⟩ := h remember progress
  refine ⟨after, ?_, hprogress.of_names_eq hclass hprotocol⟩
  rw [alone, halone, hrun]

/-- What follows a step may rely on what the step gives alone. -/
theorem bind (hm : Steady context m) (hf : ∀ a, m.alone context = .ok a → Steady context (f a)) :
    Steady context (m >>= f) := by
  intro remember progress hprogress
  obtain ⟨after, hrun, hafter⟩ := hm remember progress hprogress
  rw [run_bind, hrun, alone_bind hm hf]
  cases hresult : m.alone context with
  | error e => exact ⟨after, rfl, hafter⟩
  | ok a => exact hf a hresult remember after hafter

/-- Steadiness passes through a handler. -/
theorem tryCatch {handler : Error → RecordReader α} (hm : Steady context m)
    (hf : ∀ e, Steady context (handler e)) : Steady context (tryCatch m handler) := by
  intro remember progress hprogress
  obtain ⟨after, hrun, hafter⟩ := hm remember progress hprogress
  rw [run_tryCatch, hrun, alone_tryCatch hm hf]
  cases m.alone context with
  | ok a => exact ⟨after, rfl, hafter⟩
  | error e => exact hf e remember after hafter

/-- A reader that does not ask whether to remember is as steady as what it goes on with. -/
theorem read_bind {f : Context → RecordReader β}
    (hsame : ∀ remember, f (context.remembering remember) = f context)
    (hf : Steady context (f context)) : Steady context (read >>= f) := by
  intro remember progress hprogress
  rw [alone_read_bind hsame]
  change ∃ after, (f (context.remembering remember) (context.remembering remember) progress).run =
    _ ∧ _
  rw [hsame]
  exact hf remember progress hprogress

theorem pure (a : α) : Steady context (Pure.pure a) :=
  of_result fun _ progress => ⟨progress, rfl, rfl, rfl⟩

theorem throw (error : Error) : Steady context (throw error : RecordReader α) :=
  of_result fun _ progress => ⟨progress, rfl, rfl, rfl⟩

theorem note (entry : LogEntry) : Steady context (note entry) :=
  of_result fun _ _ => ⟨_, rfl, rfl, rfl⟩

theorem decodeType (encoding : Text) : Steady context (decodeType encoding) :=
  of_result fun _ _ => ⟨_, rfl, rfl, rfl⟩

theorem decodeMethod (encoding : Text) : Steady context (decodeMethod encoding) :=
  of_result fun _ _ => ⟨_, rfl, rfl, rfl⟩

theorem ofExcept (result : Except Error α) : Steady context (ofExcept result) := by
  cases result with
  | ok a => exact pure a
  | error e => exact throw e

theorem pointerSize : Steady context pointerSize := read_bind (fun _ => rfl) (pure _)

theorem pointerAt (addr : UInt64) : Steady context (pointerAt addr) := by
  refine read_bind (fun _ => rfl) (bind (ofExcept _) fun pointer _ => ?_)
  split
  · split
    · exact bind (note _) fun _ _ => pure _
    · exact pure _
  · exact pure _

theorem word32At (addr : UInt64) : Steady context (word32At addr) :=
  read_bind (fun _ => rfl) (bind (ofExcept _) fun _ _ => pure _)

theorem checkRange (addr size : UInt64) : Steady context (checkRange addr size) := by
  rw [checkRange_eq]
  exact read_bind (fun _ => rfl) (ofExcept _)

theorem text (addr : UInt64) : Steady context (text addr) := by
  unfold RecordReader.text
  split
  · exact pure _
  · exact read_bind (fun _ => rfl) (ofExcept _)

theorem smallMethod (isClassMethod direct : Bool) (addr : UInt64) :
    Steady context (smallMethod isClassMethod direct addr) := by
  refine read_bind (fun _ => rfl) (bind (ofExcept _) fun bytes _ => ?_)
  extract_lets distance target imp finish
  have hfinish (nameAddr : UInt64) : Steady context (finish nameAddr) :=
    bind (text _) fun _ _ => bind (text _) fun _ _ => bind (decodeMethod _) fun _ _ => pure _
  split
  · exact bind (pure _) fun _ _ => hfinish _
  · exact bind (pointerAt _) fun _ _ => bind (pure _) fun _ _ => hfinish _

/-- The name of a class may be kept. -/
theorem keepClassName {addr : UInt64} {name : Text}
    (h : (nameOfClass addr).alone context = .ok name) :
    Steady context (modify fun p => { p with classNames := (addr, name) :: p.classNames }) := by
  intro remember progress hprogress
  exact ⟨_, rfl, List.forall_mem_cons.2 ⟨h, hprogress.classNames⟩, hprogress.protocolNames⟩

/-- The name of a protocol may be kept. -/
theorem keepProtocolName {addr : UInt64} {name : Text}
    (h : (nameOfProtocol addr).alone context = .ok name) :
    Steady context
      (modify fun p => { p with protocolNames := (addr, name) :: p.protocolNames }) := by
  intro remember progress hprogress
  exact ⟨_, rfl, hprogress.classNames, List.forall_mem_cons.2 ⟨h, hprogress.protocolNames⟩⟩

end Steady

end Combinators

/-- Steadiness is passed on by the steps that leave names alone. -/
theorem compositional_steady (context : Context) :
    Compositional (fun {α} (m : RecordReader α) => Steady context m) where
  pure := .pure
  throw := .throw
  bind hm hf := .bind hm fun a _ => hf a
  tryCatch := .tryCatch
  read_bind hsame hf := .read_bind (fun _ => hsame _ _ rfl) (hf context)
  note := .note
  decodeType := .decodeType
  decodeMethod := .decodeMethod
  pointerSize := .pointerSize
  pointerAt := .pointerAt
  word32At := .word32At
  checkRange := .checkRange
  text := .text
  smallMethod := .smallMethod

theorem steady_nameOfClass (addr : UInt64) : Steady context (nameOfClass addr) :=
  have h := compositional_steady context
  h.bind (h.classRecord addr) fun _ => h.bind (h.dataOf _) fun _ => h.text _

theorem steady_nameOfProtocol (addr : UInt64) : Steady context (nameOfProtocol addr) :=
  have h := compositional_steady context
  h.bind h.pointerSize fun _ => h.bind (h.pointerAt _) fun _ => h.text _

/-- Errors are annotated, so that a step that succeeds did so without. -/
theorem alone_of_annotating {m : RecordReader α} {record field : Text} {a : α}
    (hm : Steady context m) (h : (annotating record field m).alone context = .ok a) :
    m.alone context = .ok a := by
  rw [annotating, alone_tryCatch hm fun _ => .throw _] at h
  cases hresult : m.alone context with
  | ok b => rwa [hresult] at h
  | error e =>
    rw [hresult] at h
    cases h

/-! ## Kept names

A name is kept while its record is read, and looked up when another record refers to it. Both times
it is the name that `nameOfClass` or `nameOfProtocol` reads. -/

section Names

/-- A name is looked up among those that were kept, if this is allowed, and read otherwise. -/
private theorem exists_lookUp {entries : List (UInt64 × Text)} {addr : UInt64}
    {fresh : RecordReader Text} (hfresh : Steady context fresh)
    (hknown : ∀ entry ∈ entries, entry.1 = addr → fresh.alone context = .ok entry.2)
    (remember : Bool) {progress : Progress} (hprogress : KeepsNames context progress) :
    ∃ after, ((match remember, (entries.find? fun entry => entry.1 = addr).map (·.2) with
      | true, some name => pure name
      | _, _ => fresh : RecordReader Text) (context.remembering remember) progress).run =
        (fresh.alone context, after) ∧ KeepsNames context after := by
  cases remember with
  | false => exact hfresh false progress hprogress
  | true =>
    cases hfound : entries.find? fun entry => entry.1 = addr with
    | none => exact hfresh true progress hprogress
    | some entry =>
      have haddr : entry.1 = addr := by simpa using List.find?_some hfound
      rw [hknown entry (List.mem_of_find?_eq_some hfound) haddr]
      exact ⟨progress, rfl, hprogress⟩

/-- A name that is read and kept is the name that is read. -/
private theorem alone_keep {read : RecordReader Text} {keep : Text → RecordReader Unit}
    (hread : Steady context read)
    (hkeep : ∀ name, read.alone context = .ok name → Steady context (keep name))
    (hkept : ∀ name, (keep name).alone context = .ok ()) :
    Steady context (do let name ← read; keep name; return name) ∧
      (do let name ← read; keep name; return name : RecordReader Text).alone context =
        read.alone context := by
  have hrest (name : Text) (hname : read.alone context = .ok name) :
      Steady context (do keep name; return name) :=
    (hkeep name hname).bind fun _ _ => .pure name
  refine ⟨hread.bind hrest, ?_⟩
  -- keeping a name answers nothing, so the answer is that of the read
  rw [alone_bind hread hrest]
  cases hname : read.alone context with
  | error e => rfl
  | ok name =>
    change (do keep name; return name : RecordReader Text).alone context = _
    rw [alone_bind (hkeep name hname) fun _ _ => .pure name, hkept]
    rfl

/-- The name of a class is the same whether it is kept or read. -/
theorem steady_className (addr : UInt64) : Steady context (className addr) := by
  obtain ⟨hfresh, halone⟩ := @alone_keep context (nameOfClass addr)
    (fun name => modify fun p => { p with classNames := (addr, name) :: p.classNames })
    (steady_nameOfClass addr) (fun _ h => .keepClassName h) fun _ => rfl
  intro remember progress hprogress
  -- an entry for the address may be used, since all entries are right
  have hknown : ∀ entry ∈ progress.classNames, entry.1 = addr →
      (nameOfClass addr).alone context = .ok entry.2 := by
    rintro entry hentry rfl
    exact hprogress.classNames entry hentry
  simp only [← halone] at hknown
  simp only [nameOfClass, bind_assoc] at hfresh hknown
  exact exists_lookUp hfresh hknown remember hprogress

/-- The name of a protocol is the same whether it is kept or read. -/
theorem steady_protocolName (addr : UInt64) : Steady context (protocolName addr) := by
  obtain ⟨hfresh, halone⟩ := @alone_keep context (nameOfProtocol addr)
    (fun name => modify fun p => { p with protocolNames := (addr, name) :: p.protocolNames })
    (steady_nameOfProtocol addr) (fun _ h => .keepProtocolName h) fun _ => rfl
  intro remember progress hprogress
  have hknown : ∀ entry ∈ progress.protocolNames, entry.1 = addr →
      (nameOfProtocol addr).alone context = .ok entry.2 := by
    rintro entry hentry rfl
    exact hprogress.protocolNames entry hentry
  simp only [← halone] at hknown
  simp only [nameOfProtocol, bind_assoc] at hfresh hknown
  exact exists_lookUp hfresh hknown remember hprogress

/-- A class record whose parts can be read has the name that is found in them. -/
private theorem alone_nameOfClass {addr : UInt64} {record : ClassRecord} {data : ClassData}
    {name : Text} (hrecord : (classRecord addr).alone context = .ok record)
    (hdata : (dataOf record).alone context = .ok data)
    (hname : (text data.name).alone context = .ok name) :
    (nameOfClass addr).alone context = .ok name := by
  have h := compositional_steady context
  rw [nameOfClass, alone_bind (h.classRecord addr) fun record _ =>
    h.bind (h.dataOf record) fun _ => h.text _, hrecord]
  change (dataOf record >>= fun data => text data.name).alone context = _
  rw [alone_bind (h.dataOf record) fun data _ => h.text _, hdata]
  exact hname

/-- The second of several pointers is the one behind the first. -/
private theorem alone_pointerAt_of_pointers {addr : UInt64} {count : Nat}
    {words : List Image.Pointer} (hwords : (pointers addr (count + 2)).alone context = .ok words) :
    (pointerAt (addr + context.image.pointerSize.toUInt64)).alone context =
      .ok (words.getD 1 default) := by
  have h := compositional_steady context
  obtain ⟨size, hsize, hchecked⟩ := exists_of_alone_bind h.pointerSize
    (fun _ => h.bind (h.checkRange _ _) fun _ => h.pointersFrom _ _ _) hwords
  obtain rfl : context.image.pointerSize.toUInt64 = size := Except.ok.inj hsize
  -- the loop is unrolled twice
  obtain ⟨_, -, hfrom⟩ := exists_of_alone_bind (h.checkRange _ _)
    (fun _ => h.pointersFrom _ _ _) hchecked
  obtain ⟨first, -, hbehind⟩ := exists_of_alone_bind (h.pointerAt _)
    (fun _ => h.bind (h.pointersFrom _ _ _) fun _ => h.pure _) hfrom
  obtain ⟨rest, hrest, hall⟩ := exists_of_alone_bind (h.pointersFrom _ _ _)
    (fun _ => h.pure _) hbehind
  obtain ⟨second, hsecond, hbehind⟩ := exists_of_alone_bind (h.pointerAt _)
    (fun _ => h.bind (h.pointersFrom _ _ _) fun _ => h.pure _) hrest
  obtain ⟨others, -, hothers⟩ := exists_of_alone_bind (h.pointersFrom _ _ _)
    (fun _ => h.pure _) hbehind
  obtain rfl : second :: others = rest := Except.ok.inj hothers
  obtain rfl : first :: second :: others = words := Except.ok.inj hall
  exact hsecond

/-- The second pointer of a protocol record leads to its name. -/
theorem alone_nameOfProtocol {addr : UInt64} {record : ProtocolRecord}
    (hrecord : (protocolRecord addr).alone context = .ok record) :
    (nameOfProtocol addr).alone context = (text record.name).alone context := by
  have h := compositional_steady context
  obtain ⟨after, hrun⟩ := alone_eq_ok_iff.1 hrecord
  obtain ⟨words, _, hwords, hrun⟩ := exists_of_run_bind _ _ hrun
  have hpointer := alone_pointerAt_of_pointers (alone_eq_ok_iff.2 ⟨_, hwords⟩)
  obtain ⟨_, _, -, hrun⟩ := exists_of_run_bind _ _ hrun
  obtain ⟨_, _, -, hrun⟩ := exists_of_run_bind _ _ hrun
  obtain ⟨_, _, -, hrun⟩ := exists_of_run_bind _ _ hrun
  obtain ⟨_, _, -, hrun⟩ := exists_of_run_bind _ _ hrun
  obtain ⟨_, _, -, hrun⟩ := exists_of_run_bind _ _ hrun
  obtain ⟨_, _, -, hrun⟩ := exists_of_run_bind _ _ hrun
  obtain rfl := Except.ok.inj (congrArg Prod.fst hrun)
  rw [nameOfProtocol, alone_bind h.pointerSize fun _ _ => h.bind (h.pointerAt _) fun _ => h.text _]
  change (pointerAt (addr + context.image.pointerSize.toUInt64) >>= fun pointer =>
    text pointer.addr).alone context = _
  rw [alone_bind (h.pointerAt _) fun _ _ => h.text _, hpointer]
  rfl

end Names

/-- All readers of records are steady. -/
theorem compositionalWithNames_steady (context : Context) :
    CompositionalWithNames (fun {α} (m : RecordReader α) => Steady context m) where
  toCompositional := compositional_steady context
  className := steady_className
  protocolName := steady_protocolName
  -- the name that is kept for an address is what reading the address alone gives
  keepClassName_bind addr hf := by
    have h := compositional_steady context
    refine .bind (h.classRecord addr) fun record hrecord =>
      .bind (h.annotating (h.dataOf record) _ _) fun data hdata =>
      .bind (h.annotating (h.text data.name) _ _) fun name hname =>
      .bind (.keepClassName ?_) fun _ _ => hf record data name
    exact alone_nameOfClass hrecord (alone_of_annotating (h.dataOf record) hdata)
      (alone_of_annotating (h.text data.name) hname)
  keepProtocolName_bind addr hf := by
    have h := compositional_steady context
    refine .bind (h.protocolRecord addr) fun record hrecord =>
      .bind (h.annotating (h.text record.name) _ _) fun name hname =>
      .bind (.keepProtocolName ?_) fun _ _ => hf record name
    rw [alone_nameOfProtocol hrecord]
    exact alone_of_annotating (h.text record.name) hname

end RecordReader

end ObjcLens
