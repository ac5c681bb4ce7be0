import Mathlib
import ObjcLens.Proofs.Draft.Listing

/-!
# Drafting step by step

A draft is made by a sequence of steps, each of which adds a protocol, a class, a category or the
image info. The log of a run has the steps with the addresses that they returned. `Records` is the
invariant of a run: the lists of the draft hold the addresses of the log, and every record of the
log can be read in every later draft.

## Main results

* `Records.step`: one step keeps the invariant.
* `Records.runSteps`: a run of steps keeps the invariant.
-/

namespace ObjcLens

/-- A step of drafting. -/
inductive DraftStep where
  /-- A protocol is added. -/
  | addProtocol (p : DraftProtocol)
  /-- A class is added. -/
  | addClass (c : DraftClass)
  /-- A category is added. -/
  | addCategory (c : DraftCategory)
  /-- The image info is added. -/
  | addImageInfo (flags : ImageInfoFlags)

/-- Steps with the addresses that they returned. -/
abbrev DraftLog := List (DraftStep × UInt64)

namespace Drafting

/-- Does a step and returns the address of its record, zero for the image info. -/
def runStep : DraftStep → Drafting UInt64
  | .addProtocol p => addProtocol p
  | .addClass c => addClass c
  | .addCategory c => addCategory c
  | .addImageInfo flags => do
    imageInfo flags
    return 0

/-- Does steps one after the other and returns their log. -/
def runSteps : List DraftStep → Drafting DraftLog
  | [] => pure []
  | step :: rest => do
    let addr ← runStep step
    return (step, addr) :: (← runSteps rest)

end Drafting

/-- Steps that write records are made of the steps that change single sections. -/
theorem Drafting.stepwise_runSteps (steps : List DraftStep) :
    Drafting.Stepwise (Drafting.runSteps steps) := by
  have hstep (step : DraftStep) : Drafting.Stepwise (Drafting.runStep step) := by
    cases step with
    | addProtocol p => exact stepwise_addProtocol p
    | addClass c => exact stepwise_addClass c
    | addCategory c => exact stepwise_addCategory c
    | addImageInfo flags => exact (stepwise_imageInfo flags).bind fun _ => .pure 0
  induction steps with
  | nil => exact .pure []
  | cons first rest ih => exact (hstep first).bind fun _ => ih.bind fun _ => .pure _

/-- The log has the steps in order. -/
theorem Drafting.map_fst_of_runSteps {steps : List DraftStep} {log : DraftLog} {d e : Draft}
    (h : Drafting.runSteps steps d = .ok (log, e)) : log.map (·.1) = steps := by
  induction steps generalizing d log with
  | nil =>
    obtain ⟨rfl, -⟩ := Drafting.pure_ok h
    rfl
  | cons first rest ih =>
    obtain ⟨addr, d₁, -, h⟩ := Drafting.bind_ok h
    obtain ⟨others, d₂, hrest, h⟩ := Drafting.bind_ok h
    obtain ⟨rfl, rfl⟩ := Drafting.pure_ok h
    rw [List.map_cons, ih hrest]

namespace DraftLog

/-- The protocols with their addresses, in order. -/
def protocols (log : DraftLog) : List (DraftProtocol × UInt64) :=
  log.filterMap fun
    | (.addProtocol p, addr) => some (p, addr)
    | _ => none

/-- The classes with their addresses, in order. -/
def classes (log : DraftLog) : List (DraftClass × UInt64) :=
  log.filterMap fun
    | (.addClass c, addr) => some (c, addr)
    | _ => none

/-- The classes that are listed. -/
def listedClasses (log : DraftLog) : List (DraftClass × UInt64) :=
  log.classes.filter fun entry => !entry.1.isUnlisted

/-- The categories with their addresses, in order. -/
def categories (log : DraftLog) : List (DraftCategory × UInt64) :=
  log.filterMap fun
    | (.addCategory c, addr) => some (c, addr)
    | _ => none

/-- The flags of the image infos, in order. -/
def infoFlags (log : DraftLog) : List ImageInfoFlags :=
  log.filterMap fun
    | (.addImageInfo flags, _) => some flags
    | _ => none

/-- The name of the first record at an address. -/
def nameAt {α : Type} (name : α → Text) (entries : List (α × UInt64)) (addr : UInt64) : Text :=
  ((entries.find? fun entry => entry.2 = addr).map fun entry => name entry.1).getD []

/-- The name at the address of a record is that of a record at the address. -/
theorem exists_nameAt_eq {α : Type} (name : α → Text) {entries : List (α × UInt64)}
    {addr : UInt64} (h : addr ∈ entries.map (·.2)) :
    ∃ entry ∈ entries, entry.2 = addr ∧ nameAt name entries addr = name entry.1 := by
  have hsome : (entries.find? fun entry => entry.2 = addr).isSome := by
    obtain ⟨entry, hentry, rfl⟩ := List.mem_map.1 h
    rw [List.find?_isSome]
    exact ⟨entry, hentry, decide_eq_true rfl⟩
  obtain ⟨entry, hentry⟩ := Option.isSome_iff_exists.1 hsome
  refine ⟨entry, List.mem_of_find?_eq_some hentry, by simpa using List.find?_some hentry, ?_⟩
  rw [nameAt, hentry]
  rfl

/-- The names of the classes and protocols of the log. -/
def names (log : DraftLog) : RecordNames where
  ofClass := nameAt DraftClass.name log.classes
  ofProtocol := nameAt DraftProtocol.name log.protocols

end DraftLog

/-- The texts of the step have no zero bytes, it leaves no method without a mark of its layout, and
it gives either no extended signatures or one for each method. The image info does not announce
class properties of categories, which are not written. -/
def DraftStep.IsPlain : DraftStep → Prop
  | .addProtocol p =>
    p.NulFree ∧ (p.extendedTypes = [] ∨ p.extendedTypes.length = p.methodCount)
  | .addClass c => c.NulFree ∧ c.layout ≠ .unmarkedDistances
  | .addCategory c => c.NulFree
  | .addImageInfo flags => flags.hasCategoryClassProperties = false

instance : DecidablePred DraftStep.IsPlain
  | .addProtocol _ => inferInstanceAs (Decidable (_ ∧ _))
  | .addClass _ => inferInstanceAs (Decidable (_ ∧ _))
  | .addCategory c => inferInstanceAs (Decidable c.NulFree)
  | .addImageInfo _ => inferInstanceAs (Decidable (_ = false))

open RecordReader

/-- What is known of a protocol that was added. -/
def ReadsProtocol (context : Context) (entry : DraftProtocol × UInt64) : Prop :=
  IsProtocol context entry.2 entry.1.name ∧ ∀ names : RecordNames,
    (∀ a ∈ entry.1.protocols, IsProtocol context a (names.ofProtocol a)) →
      Reads context (readProtocol entry.2) (entry.1.toProtocol names context.code entry.2)

/-- What is known of a class that was added. -/
def ReadsClass (context : Context) (entry : DraftClass × UInt64) : Prop :=
  context.Near entry.2 ∧ ((entry.1.superclass ≠ 0 → context.Near entry.1.superclass) →
    ClassNamed context entry.2 entry.1.name ∧ ∀ names : RecordNames,
      (entry.1.superclass ≠ 0 →
        ClassNamed context entry.1.superclass (names.ofClass entry.1.superclass)) →
      (∀ a ∈ entry.1.protocols, IsProtocol context a (names.ofProtocol a)) →
        Reads context (readClass entry.2) (entry.1.toClass names context.code entry.2))

/-- What is known of a category that was added. -/
def ReadsCategory (context : Context) (entry : DraftCategory × UInt64) : Prop :=
  context.Near entry.2 ∧ ∀ names : RecordNames,
    (entry.1.classAddr ≠ 0 → context.Near entry.1.classAddr ∧
      ClassNamed context entry.1.classAddr (names.ofClass entry.1.classAddr)) →
    (∀ a ∈ entry.1.protocols, IsProtocol context a (names.ofProtocol a)) →
      Reads context (readCategory entry.2) (entry.1.toCategory names context.code entry.2)

/-- All records of the log can be read. -/
structure ReadsLog (context : Context) (log : DraftLog) : Prop where
  protocols : ∀ entry ∈ log.protocols, ReadsProtocol context entry
  classes : ∀ entry ∈ log.classes, ReadsClass context entry
  categories : ∀ entry ∈ log.categories, ReadsCategory context entry

/-- The draft has the records of the log, and lists their addresses. -/
structure Draft.Records (d : Draft) (log : DraftLog) : Prop where
  regular : d.Regular
  classList_eq : d.stored 4 = d.pointers (log.listedClasses.map (·.2))
  categoryList_eq : d.stored 5 = d.pointers (log.categories.map (·.2))
  protocolList_eq : d.stored 6 = d.pointers (log.protocols.map (·.2))
  imageInfo_eq : d.stored 7 = log.infoFlags.flatMap fun flags => d.words [0, flags]
  tells : d.Tells (ReadsLog · log)

namespace Draft

/-- Pointers that are written one after the other can be written at once. -/
theorem pointers_append (d : Draft) (a b : List UInt64) :
    d.pointers (a ++ b) = d.pointers a ++ d.pointers b :=
  List.flatMap_append

namespace Records

variable {d e : Draft} {log : DraftLog}

/-- One more entry of the log is listed where it belongs. -/
private theorem append (hd : d.Records log) {slot : Nat} {bytes : Text}
    (hlists : d.Lists e slot bytes) {entry : DraftStep × UInt64}
    (hclass : (if 4 = slot then bytes else []) =
      d.pointers (DraftLog.listedClasses [entry] |>.map (·.2)))
    (hcategory : (if 5 = slot then bytes else []) =
      d.pointers (DraftLog.categories [entry] |>.map (·.2)))
    (hprotocol : (if 6 = slot then bytes else []) =
      d.pointers (DraftLog.protocols [entry] |>.map (·.2)))
    (hinfo : (if 7 = slot then bytes else []) =
      (DraftLog.infoFlags [entry]).flatMap fun flags => d.words [0, flags])
    (htells : e.Tells (ReadsLog · [entry])) : e.Records (log ++ [entry]) := by
  have hextends := hlists.toExtends
  -- each list grows by what the entry adds to its slot; the facts of the log stay and gain one
  refine ⟨hlists.regular, ?_, ?_, ?_, ?_, fun later context hlater hcontext => ?_⟩
  · rw [hlists.lists_eq 4 (by decide), hd.classList_eq, hclass, ← pointers_append,
      ← List.map_append, hextends.pointers_eq, DraftLog.listedClasses, DraftLog.listedClasses,
      DraftLog.listedClasses, DraftLog.classes, DraftLog.classes, DraftLog.classes,
      List.filterMap_append, List.filter_append]
  · rw [hlists.lists_eq 5 (by decide), hd.categoryList_eq, hcategory, ← pointers_append,
      ← List.map_append, hextends.pointers_eq, DraftLog.categories, DraftLog.categories,
      DraftLog.categories, List.filterMap_append]
  · rw [hlists.lists_eq 6 (by decide), hd.protocolList_eq, hprotocol, ← pointers_append,
      ← List.map_append, hextends.pointers_eq, DraftLog.protocols, DraftLog.protocols,
      DraftLog.protocols, List.filterMap_append]
  · simp only [hextends.words_eq]
    rw [hlists.lists_eq 7 (by decide), hd.imageInfo_eq, hinfo, ← List.flatMap_append,
      DraftLog.infoFlags, DraftLog.infoFlags, DraftLog.infoFlags, List.filterMap_append]
  · have hold := hd.tells.mono hextends later context hlater hcontext
    have hnew := htells later context hlater hcontext
    refine ⟨?_, ?_, ?_⟩
    · rw [DraftLog.protocols, List.filterMap_append]
      exact List.forall_mem_append.2 ⟨hold.protocols, hnew.protocols⟩
    · rw [DraftLog.classes, List.filterMap_append]
      exact List.forall_mem_append.2 ⟨hold.classes, hnew.classes⟩
    · rw [DraftLog.categories, List.filterMap_append]
      exact List.forall_mem_append.2 ⟨hold.categories, hnew.categories⟩

/-- One step keeps the invariant. -/
theorem step (hd : d.Records log) {step : DraftStep} (hplain : step.IsPlain) {addr : UInt64}
    (h : Drafting.runStep step d = .ok (addr, e)) : e.Records (log ++ [(step, addr)]) := by
  cases step with
  -- an entry adds its address to one list only, so the other three equations hold by computation
  | addProtocol p =>
    obtain ⟨hlists, htells⟩ := Drafting.Adds.addProtocol hplain.1 hplain.2 d e addr hd.regular h
    refine hd.append hlists rfl rfl rfl rfl (htells.imp fun context hfact => ?_)
    exact ⟨List.forall_mem_singleton.2 hfact, by simp [DraftLog.classes],
      by simp [DraftLog.categories]⟩
  | addClass c =>
    obtain ⟨hlists, htells⟩ := Drafting.Adds.addClass hplain.1 hplain.2 d e addr hd.regular h
    refine hd.append hlists ?_ rfl rfl rfl (htells.imp fun context hfact => ?_)
    · cases hlisted : c.isUnlisted <;>
        simp [DraftLog.listedClasses, DraftLog.classes, hlisted, pointers]
    · exact ⟨by simp [DraftLog.protocols], List.forall_mem_singleton.2 hfact,
        by simp [DraftLog.categories]⟩
  | addCategory c =>
    obtain ⟨hlists, htells⟩ := Drafting.Adds.addCategory hplain d e addr hd.regular h
    refine hd.append hlists rfl rfl rfl rfl (htells.imp fun context hfact => ?_)
    exact ⟨by simp [DraftLog.protocols], by simp [DraftLog.classes],
      List.forall_mem_singleton.2 hfact⟩
  | addImageInfo flags =>
    -- the image info is not a record with an address: its flags themselves are appended to the list
    obtain ⟨_, d₁, hinfo, hreturn⟩ := Drafting.bind_ok h
    obtain ⟨bytes, d₂, hwords, hlist⟩ := Drafting.bind_ok hinfo
    obtain ⟨_, d₃, happend, hlast⟩ := Drafting.bind_ok hlist
    obtain ⟨rfl, rfl⟩ : bytes = d.words [0, flags] ∧ d₂ = d := Drafting.pure_ok hwords
    have hlists := Drafting.append_lists slotOf?_imageinfo (by decide) hd.regular happend
    obtain rfl : d₁ = d₃ := (Drafting.pure_ok hlast).2
    obtain ⟨rfl, rfl⟩ := Drafting.pure_ok hreturn
    refine hd.append hlists rfl rfl rfl ?_ fun _ context _ _ => ?_
    · simp [DraftLog.infoFlags]
    · exact ⟨by simp [DraftLog.protocols], by simp [DraftLog.classes],
        by simp [DraftLog.categories]⟩

/-- A run of steps keeps the invariant. -/
theorem runSteps (hd : d.Records log) {steps : List DraftStep} (hplain : ∀ s ∈ steps, s.IsPlain)
    {later : DraftLog} (h : Drafting.runSteps steps d = .ok (later, e)) :
    e.Records (log ++ later) := by
  induction steps generalizing d log later with
  | nil =>
    obtain ⟨rfl, rfl⟩ := Drafting.pure_ok h
    rwa [List.append_nil]
  | cons first rest ih =>
    rw [List.forall_mem_cons] at hplain
    obtain ⟨addr, d', hfirst, h⟩ := Drafting.bind_ok h
    obtain ⟨others, d'', hrest, h⟩ := Drafting.bind_ok h
    obtain ⟨rfl, rfl⟩ := Drafting.pure_ok h
    have hnext := ih (hd.step hplain.1 hfirst) hplain.2 hrest
    rwa [List.append_assoc, List.singleton_append] at hnext

end Records

end Draft

end ObjcLens
