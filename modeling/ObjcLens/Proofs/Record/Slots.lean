import Mathlib
import ObjcLens.Proofs.Attempt
import ObjcLens.Proofs.Image.Open
import ObjcLens.Proofs.Record.Alone
import ObjcLens.Record.Metadata

/-!
# Every slot of a list counts once

The lists of classes, categories and protocols consist of slots, each of which holds an address. A
slot is empty, or leads to a record that is found, or to an error (`SlotFate`), and none of this
depends on the other slots. The metadata of an image hold what the slots give, slot by slot: every
record that was found and every error, unless a read beyond the end of the slice ends the whole.

Before the first slot is looked at, the image info section is read as a whole. One that claims more
bytes than can be addressed crashes the program, so that no slot counts.

## Main results

* `alone_listEntry`, `alone_listSections`: what the readers of lists give.
* `metadata_eq_crashed_iff`: when reading the metadata crashes.
* `metadata_eq_of_opened`: the metadata of an opened image.
* `metadata_oversizedSlice`: a record that is lost in a crash.
-/

namespace ObjcLens

namespace Error

/-- Only dangling addresses are annotated. -/
theorem annotate_eq_self {e : Error} (h : e.kind ≠ .dangling) (record field : Text) :
    e.annotate record field = e := by
  cases e with
  | dangling => exact absurd rfl h
  | within label cause =>
    have hcause : cause.kind ≠ .dangling := h
    rw [annotate]
    split
    · contradiction
    · rfl
  | _ => rfl

/-- Annotations do not change the class of an error. -/
theorem kind_annotate (e : Error) (record field : Text) :
    (e.annotate record field).kind = e.kind := by
  induction e with
  | within label cause ih =>
    rw [annotate]
    split
    · exact ih
    · rfl
  | _ => rfl

end Error

namespace RecordReader

/-- What becomes of a slot of a list: it holds no record, or a record that is found, or something
that cannot be read. -/
inductive SlotFate (α : Type) where
  | empty
  | found (a : α)
  | unread (e : Error)

namespace SlotFate

variable {α : Type}

/-- The record in a slot. -/
def found? : SlotFate α → Option α
  | .found a => some a
  | _ => none

/-- Why a slot cannot be read. -/
def error? : SlotFate α → Option Error
  | .unread e => some e
  | _ => none

/-- The outcome of a list of slots: a read beyond the end of the slice, if there is one, and
otherwise all records and errors in order. -/
def outcome (fates : List (SlotFate α)) : Except Error (Outcome α) :=
  match (fates.filterMap error?).find? (·.kind = .truncated) with
  | some e => .error e
  | none => .ok (fates.filterMap found?, fates.filterMap error?)

/-- A list of slots ends the whole only with a read beyond the end of the slice. -/
theorem kind_of_outcome_eq_error {fates : List (SlotFate α)} {e : Error}
    (h : outcome fates = .error e) : e.kind = .truncated := by
  unfold outcome at h
  split at h
  · rename_i found hfound
    obtain rfl := Except.error.inj h
    simpa using List.find?_some hfound
  · cases h

/-- A slot whose read is truncated ends the whole list. -/
theorem outcome_truncated {e : Error} (h : e.kind = .truncated) :
    outcome [(unread e : SlotFate α)] = .error e := by
  simp [outcome, error?, h]

/-- Outcomes are put together like the lists that they come from. -/
theorem outcome_append (fates others : List (SlotFate α)) :
    outcome (fates ++ others) = do
      let (records, errors) ← outcome fates
      let (records', errors') ← outcome others
      return (records ++ records', errors ++ errors') := by
  unfold outcome
  rw [List.filterMap_append, List.filterMap_append, List.find?_append]
  -- the first list decides whether the second one is read
  cases (fates.filterMap error?).find? (·.kind = .truncated) with
  | some e => rfl
  | none =>
    cases (others.filterMap error?).find? (·.kind = .truncated) <;> rfl

end SlotFate

/-! ## The fate of a slot -/

section Fates

variable {α : Type} (context : Context) (item : UInt64 → RecordReader α) (record : Text)

/-- The fate of a slot that holds a pointer. Null pointers and those to other images lead to no
record. -/
def recordFate (pointer : Image.Pointer) : SlotFate α :=
  if !pointer.symbol.isEmpty || pointer.addr = 0 then .empty
  else match (item pointer.addr).alone context with
    | .ok a => .found a
    | .error e => .unread (e.annotate (record ++ " " ++ Text.hex0x pointer.addr.toNat) [])

/-- The fate of a slot of a list section, whatever other slots hold. -/
def slotFate (s : Section) (index : Nat) : SlotFate α :=
  let place := s.addr + index.toUInt64 * context.image.pointerSize.toUInt64
  match context.image.pointerWith context.chained place with
  | .ok pointer => recordFate context item record pointer
  | .error e => .unread (e.annotate (s.segment ++ "." ++ s.name ++ "[" ++ Text.dec index ++ "]") [])

/-- The fates of the slots of a list section. An encrypted section counts as one slot that cannot
be read. -/
def sectionFates (s : Section) : List (SlotFate α) :=
  if s.encrypted then [.unread (.encrypted s.segment s.name s.addr)]
  else (List.range (s.size / context.image.pointerSize.toUInt64).toNat).map
    (slotFate context item record s)

end Fates

variable {context : Context} {α : Type}

/-- The pointer in a slot does not depend on what is kept. -/
theorem alone_pointerAt (addr : UInt64) :
    (pointerAt addr).alone context = context.image.pointerWith context.chained addr := by
  rw [pointerAt, alone_read_bind fun _ => rfl, alone, run_bind]
  cases context.image.pointerWith context.chained addr with
  | error e => rfl
  | ok pointer =>
    have hpure : ((ofExcept (.ok pointer) : RecordReader Image.Pointer)
        (context.remembering false) {}).run = (.ok pointer, {}) := rfl
    simp only [hpure]
    -- a note on the chained fixups changes nothing
    split
    · cases context.chained <;> rfl
    · rfl

/-- An error is kept, unless it is a read beyond the end of the slice. -/
theorem alone_skip (record : Text) (e : Error) :
    (skip record e : RecordReader (Outcome α)).alone context =
      SlotFate.outcome [.unread (e.annotate record [])] := by
  by_cases hkind : e.kind = .truncated
  · have hsame : e.annotate record [] = e := Error.annotate_eq_self (by simp [hkind]) _ _
    simp only [skip, if_pos hkind, hsame, SlotFate.outcome]
    simp [SlotFate.error?, hkind]
    rfl
  · have hkind' : (e.annotate record []).kind ≠ .truncated := by rwa [Error.kind_annotate]
    simp only [skip, if_neg hkind, SlotFate.outcome]
    simp [SlotFate.error?, SlotFate.found?, hkind']
    rfl

/-! ## Readers of lists -/

/-- The place of the next slot. -/
theorem slot_add_size (addr size : UInt64) (index : Nat) :
    addr + index.toUInt64 * size + size = addr + (index + 1).toUInt64 * size := by
  have hsucc : (index + 1).toUInt64 = index.toUInt64 + 1 := UInt64.ofNat_add index 1
  rw [hsucc, UInt64.add_mul, UInt64.one_mul, UInt64.add_assoc]

section Lists

variable {item : UInt64 → RecordReader α}

/-- The reader of the record that a pointer leads to. -/
def listRecord (record : Text) (item : UInt64 → RecordReader α) (pointer : Image.Pointer) :
    RecordReader (Outcome α) :=
  if !pointer.symbol.isEmpty || pointer.addr = 0 then return ([], [])
  else tryCatch (do return ([← item pointer.addr], []))
    fun e => skip (record ++ " " ++ Text.hex0x pointer.addr.toNat) e

/-- The handler of an entry covers its pointer and its record. -/
theorem listEntry_eq (s : Section) (record : Text) (index : Nat) (place : UInt64) :
    listEntry s record item index place = tryCatch (pointerAt place >>= listRecord record item)
      fun e => skip (s.segment ++ "." ++ s.name ++ "[" ++ Text.dec index ++ "]") e := rfl

variable (hitem : ∀ addr, Steady context (item addr))
include hitem

theorem steady_listRecord (record : Text) (pointer : Image.Pointer) :
    Steady context (listRecord record item pointer) := by
  have h := compositional_steady context
  unfold listRecord
  split
  · exact h.pure _
  · exact h.tryCatch (h.bind (hitem _) fun _ => h.pure _) fun _ => h.skip _ _

/-- A record that is read on its own has the outcome of its fate. -/
theorem alone_listRecord (record : Text) (pointer : Image.Pointer) :
    (listRecord record item pointer).alone context =
      SlotFate.outcome [recordFate context item record pointer] := by
  have h := compositional_steady context
  unfold listRecord recordFate
  split
  · rfl
  · rw [alone_tryCatch (h.bind (hitem _) fun _ => h.pure _) fun _ => h.skip _ _,
      alone_bind (hitem _) fun _ _ => h.pure _]
    cases (item pointer.addr).alone context with
    | ok a => rfl
    | error e => exact alone_skip _ e

/-- A slot is read as its fate says. -/
theorem alone_listEntry (s : Section) (record : Text) (index : Nat) :
    (listEntry s record item index
      (s.addr + index.toUInt64 * context.image.pointerSize.toUInt64)).alone context =
      SlotFate.outcome [slotFate context item record s index] := by
  have h := compositional_steady context
  have hrecord := steady_listRecord hitem record
  rw [listEntry_eq, alone_tryCatch (h.bind (h.pointerAt _) hrecord) fun _ => h.skip _ _,
    alone_bind (h.pointerAt _) fun pointer _ => hrecord pointer, alone_pointerAt, slotFate]
  cases context.image.pointerWith context.chained _ with
  | error e => exact alone_skip _ e
  | ok pointer =>
    rw [Except.ok_bind, alone_listRecord hitem]
    cases hfate : SlotFate.outcome [recordFate context item record pointer] with
    | ok found => rfl
    | error e =>
      -- only a read beyond the end of the slice comes here, and it is passed on
      have hkind := SlotFate.kind_of_outcome_eq_error hfate
      have hsame (label : Text) : e.annotate label [] = e :=
        Error.annotate_eq_self (by simp [hkind]) _ _
      simp only [alone_skip, hsame, SlotFate.outcome_truncated hkind]

/-- Slots are read one after the other, from an index on. -/
theorem alone_listEntries (s : Section) (record : Text) (count index : Nat) :
    (listEntries s record item context.image.pointerSize.toUInt64 count index
      (s.addr + index.toUInt64 * context.image.pointerSize.toUInt64)).alone context =
      SlotFate.outcome ((List.range' index count).map (slotFate context item record s)) := by
  have h := compositional_steady context
  induction count generalizing index with
  | zero => rfl
  | succ count ih =>
    have happend := SlotFate.outcome_append [slotFate context item record s index]
      ((List.range' (index + 1) count).map (slotFate context item record s))
    rw [List.singleton_append] at happend
    rw [listEntries, alone_bind (h.listEntry hitem _ _ _ _) fun _ _ =>
      h.bind (h.listEntries hitem _ _ _ _ _ _) fun _ => h.pure _, alone_listEntry hitem,
      List.range'_succ, List.map_cons, happend]
    congr 1
    funext ⟨records, errors⟩
    simp only
    -- the place is carried along, and stays that of the index
    rw [alone_bind (h.listEntries hitem _ _ _ _ _ _) fun _ _ => h.pure _, slot_add_size, ih]
    rfl

/-- A list section is read as the fates of its slots say. -/
theorem alone_listSection (record : Text) (s : Section) :
    (listSection record item s).alone context =
      SlotFate.outcome (sectionFates context item record s) := by
  have h := compositional_steady context
  unfold listSection sectionFates
  split
  · rw [alone_skip]
    rfl
  · have hsize : (pointerSize).alone context = .ok context.image.pointerSize.toUInt64 := rfl
    have hfirst : s.addr + (0 : Nat).toUInt64 * context.image.pointerSize.toUInt64 = s.addr := by
      simp
    have hall := alone_listEntries hitem s record
      (s.size / context.image.pointerSize.toUInt64).toNat 0
    rw [hfirst, ← List.range_eq_range'] at hall
    rw [alone_bind h.pointerSize fun _ _ => h.listEntries hitem _ _ _ _ _ _, hsize, Except.ok_bind,
      hall]

/-- The sections of a list are read one after the other. -/
theorem alone_listSections (record : Text) (sections : List Section) :
    (listSections record item sections).alone context =
      SlotFate.outcome (sections.flatMap (sectionFates context item record)) := by
  have h := compositional_steady context
  induction sections with
  | nil => rfl
  | cons s rest ih =>
    -- sections are read in order, and the outcome of a sequence is that of its parts
    rw [listSections, alone_bind (h.listSection hitem _ _) fun _ _ =>
      h.bind (h.listSections hitem _ _) fun _ => h.pure _, alone_listSection hitem,
      List.flatMap_cons, SlotFate.outcome_append]
    congr 1
    funext ⟨records, errors⟩
    simp only
    rw [alone_bind (h.listSections hitem _ _) fun _ _ => h.pure _, ih]
    rfl

end Lists

/-- A read beyond the end of the slice in a list ends what follows as well. -/
theorem alone_list_bind {δ : Type} {list : RecordReader (Outcome α)} {fates : List (SlotFate α)}
    {f : Outcome α → RecordReader δ} (hlist : Steady context list)
    (hfates : list.alone context = SlotFate.outcome fates) (hf : ∀ p, Steady context (f p)) :
    (list >>= f).alone context =
      match (fates.filterMap SlotFate.error?).find? (·.kind = .truncated) with
      | some e => .error e
      | none => (f (fates.filterMap SlotFate.found?, fates.filterMap SlotFate.error?)).alone
          context := by
  rw [alone_bind hlist fun p _ => hf p, hfates, SlotFate.outcome]
  split <;> rfl

/-- The metadata consist of three lists, which are read one after the other. -/
theorem steady_readMetadata (info : Except Error ImageInfo) :
    Steady context (readMetadata info) := by
  have h := compositionalWithNames_steady context
  refine .read_bind (fun _ => rfl) (h.bind (h.listSections h.readProtocol _ _) fun _ =>
    h.bind (h.listSections h.readClass _ _) fun _ =>
    h.bind (h.listSections h.readCategory _ _) fun _ => h.bind (h.note _) fun _ => h.pure _)

end RecordReader

/-! ## The metadata of an image -/

namespace Image

open RecordReader (SlotFate)

/-- The errors of the image info record that are reported. -/
def infoErrors : Except Error ImageInfo → List Error
  | .error (.within _ (.encrypted segment name addr)) => [.encrypted segment name addr]
  | _ => []

/-- The image info record, if it can be read. -/
def info? (image : Image) : Option ImageInfo := image.imageInfo.returned?.bind Except.toOption

/-- The first image info section is not encrypted and claims more bytes than can be addressed. -/
def hasOversizedInfo (image : Image) : Bool :=
  match (image.dataSections "__objc_imageinfo").head? with
  | some s => !s.encrypted && maxBuffer < s.size
  | none => false

/-- What the readers of records work on. -/
def recordContext (image : Image) : Context where
  image := image
  chained := image.chainedFixups
  categoryClassProperties := image.info?.any (·.flags.hasCategoryClassProperties)

/-- The fates of the slots of all lists with a name. -/
def slots {α : Type} (image : Image) (name record : Text) (item : UInt64 → RecordReader α) :
    List (SlotFate α) :=
  (image.dataSections name).flatMap (RecordReader.sectionFates image.recordContext item record)

def protocolSlots (image : Image) : List (SlotFate Protocol) :=
  image.slots "__objc_protolist" "protocol_t" RecordReader.readProtocol

def classSlots (image : Image) : List (SlotFate Class) :=
  image.slots "__objc_classlist" "class_t" RecordReader.readClass

def categorySlots (image : Image) : List (SlotFate Category) :=
  image.slots "__objc_catlist" "category_t" RecordReader.readCategory

/-- Why slots cannot be read, in the order in which they are visited. -/
def unreadSlots (image : Image) : List Error :=
  image.protocolSlots.filterMap SlotFate.error? ++ image.classSlots.filterMap SlotFate.error? ++
    image.categorySlots.filterMap SlotFate.error?

/-- The entry for the first image info section, if that is encrypted. -/
def unreadInfo (image : Image) : List Error :=
  match (image.dataSections "__objc_imageinfo").head? with
  | some s => if s.encrypted then [.encrypted s.segment s.name s.addr] else []
  | none => []

/-- The metadata that the slots of an image give. -/
def slotMetadata (image : Image) : Metadata where
  imageInfo := image.info?
  protocols := image.protocolSlots.filterMap SlotFate.found?
  classes := image.classSlots.filterMap SlotFate.found?
  categories := image.categorySlots.filterMap SlotFate.found?
  skipped := image.unreadInfo ++ image.unreadSlots

/-- The bytes of a section are asked for at once, unless it is encrypted. -/
theorem sectionData_eq_crashed_iff (image : Image) (s : Section) :
    image.sectionData s = .crashed ↔ s.encrypted = false ∧ maxBuffer < s.size := by
  rw [sectionData]
  cases s.encrypted with
  | true => simp
  | false =>
    by_cases hsize : maxBuffer < s.size
    · simp [hsize]
    · cases s.isZeroFill <;> simp [hsize]

/-- A section that is not encrypted is only ever read too far. -/
theorem kind_of_sectionData {image : Image} {s : Section} (hencrypted : s.encrypted = false)
    {bytes : Text} {e : Error} (h : image.sectionData s = .returned (bytes, some e)) :
    e.kind = .truncated := by
  rw [sectionData, hencrypted, if_neg Bool.false_ne_true] at h
  split at h
  · cases h
  · split at h
    · cases h
    · obtain ⟨-, herror⟩ := Prod.mk.inj (Attempt.returned.inj h)
      split at herror
      · cases herror
        rfl
      · cases herror

/-- Reading the image info crashes if and only if its section is too large. -/
theorem imageInfo_eq_crashed_iff (image : Image) :
    image.imageInfo = .crashed ↔ image.hasOversizedInfo = true := by
  rw [imageInfo, hasOversizedInfo]
  cases image.dataSections "__objc_imageinfo" with
  | nil => simp
  | cons s rest =>
    simp only [List.head?_cons, Bool.and_eq_true, Bool.not_eq_true', decide_eq_true_eq,
      ← image.sectionData_eq_crashed_iff]
    by_cases hsize : s.size = 0
    · -- an empty section is not read at all
      simp [hsize, sectionData_eq_crashed_iff]
    · rw [if_neg hsize]
      cases image.sectionData s <;> simp

/-- Sections that touch an encrypted range are not empty. -/
private theorem size_ne_zero_of_encrypted {source : Array UInt8} {told : Option Nat}
    {bounds : SliceBounds} {image : Image} (h : ofSlice source told bounds = .ok image)
    {s : Section} (hs : s ∈ image.sections) (hencrypted : s.encrypted = true) : s.size ≠ 0 := by
  rw [ofSlice_eq_ofContents] at h
  obtain ⟨-, -, sections, hsections⟩ := ofContents_eq_ok h
  rw [hsections, markEncrypted, List.mem_map] at hs
  obtain ⟨_, -, rfl⟩ := hs
  simp at hencrypted
  exact hencrypted.1.2

/-- Of the errors of the image info record, only an encrypted section is reported. -/
private theorem infoErrors_imageInfo {source : Array UInt8} {told : Option Nat}
    {bounds : SliceBounds} {image : Image} (h : ofSlice source told bounds = .ok image)
    {info : Except Error ImageInfo} (hinfo : image.imageInfo = .returned info) :
    infoErrors info = image.unreadInfo := by
  unfold imageInfo at hinfo
  unfold unreadInfo
  cases hsections : image.dataSections "__objc_imageinfo" with
  | nil =>
    rw [hsections] at hinfo
    cases hinfo
    rfl
  | cons s rest =>
    rw [hsections] at hinfo
    have hs : s ∈ image.sections := by
      have hmem : s ∈ image.dataSections "__objc_imageinfo" := hsections ▸ List.mem_cons_self
      exact (List.mem_filter.1 hmem).1
    simp only [List.head?_cons]
    by_cases hencrypted : s.encrypted = true
    · -- an empty section would be refused first, but it is not encrypted
      have hsize := size_ne_zero_of_encrypted h hs hencrypted
      simp only [if_neg hsize, sectionData, hencrypted, if_true, Attempt.map_returned] at hinfo
      cases hinfo
      simp only [decodeInfo, infoErrors, hencrypted, if_true]
    · -- the other errors are not among those that are reported
      simp only at hinfo
      rw [if_neg hencrypted]
      by_cases hsize : s.size = 0
      · rw [if_pos hsize] at hinfo
        cases hinfo
        rfl
      · rw [if_neg hsize] at hinfo
        obtain ⟨⟨bytes, fault⟩, hdata, rfl⟩ := Attempt.map_eq_returned_iff.1 hinfo
        cases fault with
        | none =>
          rw [decodeInfo]
          split <;> rfl
        | some e =>
          have hkind := kind_of_sectionData (Bool.eq_false_iff.2 hencrypted) hdata
          cases e <;> first | rfl | cases hkind

/-- Whether names are kept or not, the metadata are read as the slots say. -/
private theorem alone_readMetadata (image : Image) (info : Except Error ImageInfo) :
    (RecordReader.readMetadata info).alone image.recordContext =
      match image.unreadSlots.find? (·.kind = .truncated) with
      | some e => .error e
      | none => .ok { image.slotMetadata with
          imageInfo := info.toOption
          skipped := infoErrors info ++ image.unreadSlots } := by
  have h := RecordReader.compositionalWithNames_steady image.recordContext
  have hprotocols : (RecordReader.listSections "protocol_t" RecordReader.readProtocol
      (image.dataSections "__objc_protolist")).alone image.recordContext =
        SlotFate.outcome image.protocolSlots := RecordReader.alone_listSections h.readProtocol _ _
  have hclasses : (RecordReader.listSections "class_t" RecordReader.readClass
      (image.dataSections "__objc_classlist")).alone image.recordContext =
        SlotFate.outcome image.classSlots := RecordReader.alone_listSections h.readClass _ _
  have hcategories : (RecordReader.listSections "category_t" RecordReader.readCategory
      (image.dataSections "__objc_catlist")).alone image.recordContext =
        SlotFate.outcome image.categorySlots := RecordReader.alone_listSections h.readCategory _ _
  have hfinish (entry : LogEntry) (m : Metadata) :
      RecordReader.Steady image.recordContext (do RecordReader.note entry; return m) :=
    h.bind (h.note entry) fun _ => h.pure m
  rw [unreadSlots, List.find?_append, List.find?_append]
  refine (RecordReader.alone_read_bind fun remember => ?_).trans ?_
  · rfl
  -- a list is read only if none before it has ended the whole
  refine (RecordReader.alone_list_bind (h.listSections h.readProtocol _ _) hprotocols fun _ =>
    h.bind (h.listSections h.readClass _ _) fun _ =>
    h.bind (h.listSections h.readCategory _ _) fun _ => hfinish _ _).trans ?_
  cases (image.protocolSlots.filterMap SlotFate.error?).find? (·.kind = .truncated) with
  | some e => rfl
  | none =>
    refine (RecordReader.alone_list_bind (h.listSections h.readClass _ _) hclasses fun _ =>
      h.bind (h.listSections h.readCategory _ _) fun _ => hfinish _ _).trans ?_
    cases (image.classSlots.filterMap SlotFate.error?).find? (·.kind = .truncated) with
    | some e => rfl
    | none =>
      refine (RecordReader.alone_list_bind (h.listSections h.readCategory _ _) hcategories
        fun _ => hfinish _ _).trans ?_
      cases (image.categorySlots.filterMap SlotFate.error?).find? (·.kind = .truncated) with
      | some e => rfl
      | none =>
        rw [← List.append_assoc, ← List.append_assoc]
        rfl

/-- An image without metadata has no slot to read and gives the empty metadata. -/
private theorem slotMetadata_of_not_hasMetadata {image : Image} (h : image.hasMetadata = false) :
    image.hasOversizedInfo = false ∧ image.unreadSlots = [] ∧ image.slotMetadata = {} := by
  simp only [hasMetadata, Bool.or_eq_false_iff, List.any_eq_false] at h
  have hempty (name : String) (hname : name ∈ ["__objc_imageinfo", "__objc_classlist",
      "__objc_catlist", "__objc_protolist"]) : image.dataSections (Text.ofString name) = [] := by
    simpa using h.1 name hname
  have hinfo := hempty "__objc_imageinfo" (by simp)
  have hclasses := hempty "__objc_classlist" (by simp)
  have hcategories := hempty "__objc_catlist" (by simp)
  have hprotocols := hempty "__objc_protolist" (by simp)
  have hnone : image.info? = none := by
    rw [info?, imageInfo, show image.dataSections "__objc_imageinfo" = [] from hinfo]
    rfl
  refine ⟨?_, ?_, ?_⟩
  · simp [hasOversizedInfo, hinfo]
  · simp [unreadSlots, protocolSlots, classSlots, categorySlots, slots, hclasses, hcategories,
      hprotocols]
  · simp [slotMetadata, unreadInfo, unreadSlots, protocolSlots, classSlots, categorySlots, slots,
      hnone, hinfo, hclasses, hcategories, hprotocols]

/-- An image info section that is too large crashes the program, before a list is read. Nothing else
does. -/
theorem metadata_eq_crashed_iff (image : Image) :
    image.metadata = .crashed ↔ image.hasOversizedInfo = true := by
  rw [metadata, extract, extraction]
  cases hany : image.hasMetadata with
  | false => simp [(slotMetadata_of_not_hasMetadata hany).1]
  | true =>
    rw [Bool.not_true, if_neg Bool.false_ne_true, ← imageInfo_eq_crashed_iff]
    cases image.imageInfo with
    | crashed => simp
    | returned info =>
      rw [Dialogue.run_bind]
      simp

/-- Without a crash, the metadata of an opened image are what its slots give. -/
theorem metadata_eq_returned {source : Array UInt8} {told : Option Nat}
    {bounds : SliceBounds} {image : Image} (h : ofSlice source told bounds = .ok image)
    (hsize : image.hasOversizedInfo = false) :
    image.metadata = .returned (match image.unreadSlots.find? (·.kind = .truncated) with
      | some e => .error e
      | none => .ok image.slotMetadata) := by
  obtain ⟨info, hinfo⟩ : ∃ info, image.imageInfo = .returned info := by
    rw [← Attempt.ne_crashed_iff, Ne, imageInfo_eq_crashed_iff, hsize]
    exact Bool.false_ne_true
  by_cases hany : image.hasMetadata = true
  · -- the names that are kept on the way make no difference
    obtain ⟨after, hrun, -⟩ := RecordReader.steady_readMetadata info true {} .empty
    have hread : image.metadata = .returned ((RecordReader.readMetadata info
        (image.recordContext.remembering true) {}).run).1 := by
      rw [metadata, extract, extraction, recordContext, info?, hinfo]
      simp only [hany, Bool.not_true]
      rw [if_neg Bool.false_ne_true, Dialogue.run_bind]
      cases info <;> rfl
    rw [hread, hrun, alone_readMetadata, infoErrors_imageInfo h hinfo, slotMetadata, info?, hinfo]
    rfl
  · rw [Bool.not_eq_true] at hany
    obtain ⟨-, hunread, hslots⟩ := slotMetadata_of_not_hasMetadata hany
    rw [hunread, hslots]
    simp [metadata, extract, extraction, hany]

/-- Without a crash, the metadata of an image are refused only with a read beyond the end of the
slice. -/
theorem kind_of_metadata_eq_error {source : Array UInt8} {told : Option Nat}
    {bounds : SliceBounds} {image : Image} (h : ofSlice source told bounds = .ok image)
    {e : Error} (he : image.metadata = .returned (.error e)) : e.kind = .truncated := by
  have hsize : image.hasOversizedInfo = false := by
    rw [Bool.eq_false_iff, Ne, ← metadata_eq_crashed_iff, he]
    rintro ⟨⟩
  rw [metadata_eq_returned h hsize, Attempt.returned.injEq] at he
  split at he
  · rename_i found hfound
    obtain rfl := Except.error.inj he
    simpa using List.find?_some hfound
  · cases he

/-- The metadata of an opened image are what its slots give, unless a slot ends the whole with a
read beyond the end of the slice. Reading them crashes if and only if the first image info section
is not encrypted and claims more bytes than can be addressed. -/
theorem metadata_eq_of_opened {source : Array UInt8} {told : Option Nat} {bounds : SliceBounds}
    {image : Image} (h : ofSlice source told bounds = .ok image) :
    (image.metadata = .crashed ↔ image.hasOversizedInfo = true) ∧
      (∀ e, image.metadata = .returned (.error e) → e.kind = .truncated) ∧
      (image.hasOversizedInfo = false →
        image.metadata = .returned (match image.unreadSlots.find? (·.kind = .truncated) with
          | some e => .error e
          | none => .ok image.slotMetadata)) :=
  ⟨image.metadata_eq_crashed_iff, fun _ => kind_of_metadata_eq_error h, metadata_eq_returned h⟩

/-- A slice with a list of three slots: one is empty, one leads to a protocol without members, and
one leads nowhere. -/
private def threeSlots : Array UInt8 :=
  let words (ns : List UInt32) : Text := ns.flatMap ByteOrder.big.bytes32
  let padded (name : String) : Text := (Text.ofString name ++ List.replicate 16 0).take 16
  let listSection := padded "__objc_protolist" ++ padded "__DATA" ++
    words [0x1000, 12, 220, 0, 0, 0, 0, 0, 0]
  let recordSection := padded "__data" ++ padded "__DATA" ++
    words [0x100C, 44, 232, 0, 0, 0, 0, 0, 0]
  (words [0xFEEDFACE, 7, 3, 6, 1, 192, 0] ++ words [1, 192] ++ padded "__DATA" ++
    words [0x1000, 56, 220, 56, 3, 3, 2, 0] ++ listSection ++ recordSection ++
    words [0, 0x100C, 0x9999] ++ words [0, 0x1034, 0, 0, 0, 0, 0, 0, 40, 0] ++
    Text.ofString "P" ++ [0, 0, 0]).toArray

/-- Of the three slots, one gives a protocol and one an error. -/
theorem metadata_threeSlots :
    ∃ image, ofSlice threeSlots none {} = .ok image ∧ image.protocolSlots.length = 3 ∧
      image.metadata = .returned (.ok image.slotMetadata) ∧
      image.slotMetadata.protocols.map (·.name) = [Text.ofString "P"] ∧
      image.slotMetadata.skipped.map Error.kind = [.dangling] := by
  have hopen := ofSlice_eq_of_size_le
    (show threeSlots.size ≤ sliceSize {} none by decide +kernel)
  have hread : (ofContents threeSlots (sliceSize {} none) 0).toOption.map (fun image =>
      (image.protocolSlots.length, image.unreadSlots.map Error.kind,
        image.slotMetadata.protocols.map (·.name), image.unreadInfo.map Error.kind,
        image.hasOversizedInfo)) =
      some (3, [.dangling], [Text.ofString "P"], [], false) := by decide +kernel
  obtain ⟨image, himage, hfields⟩ := Option.map_eq_some_iff.1 hread
  simp only [Prod.mk.injEq] at hfields
  obtain ⟨hslots, hunread, hprotocols, hinfo, hsize⟩ := hfields
  have hopened := hopen.trans (Except.toOption_eq_some_iff.1 himage)
  have hcomplete : image.unreadSlots.find? (·.kind = .truncated) = none := by
    rw [List.find?_eq_none]
    intro e he
    have hkind : e.kind ∈ image.unreadSlots.map Error.kind := List.mem_map_of_mem he
    rw [hunread, List.mem_singleton] at hkind
    simp [hkind]
  have hmetadata := (metadata_eq_of_opened hopened).2.2 hsize
  rw [hcomplete] at hmetadata
  refine ⟨image, hopened, hslots, hmetadata, hprotocols, ?_⟩
  rw [slotMetadata, List.map_append, hinfo, hunread]
  rfl

/-- A slice with a list of one slot, which leads to a protocol without members, and an image info
section of 2 ^ 60 bytes, which begins where the slice ends. -/
private def oversizedSlice : Array UInt8 :=
  let words (ns : List UInt32) : Text := ns.flatMap ByteOrder.little.bytes32
  let quads (ns : List UInt64) : Text := ns.flatMap ByteOrder.little.bytes64
  let padded (name : String) : Text := (Text.ofString name ++ List.replicate 16 0).take 16
  let sectionOf (name : String) (addr size : UInt64) (offset : UInt32) : Text :=
    padded name ++ padded "__DATA" ++ quads [addr, size] ++ words [offset, 0, 0, 0, 0, 0, 0, 0]
  (words [0xFEEDFACF, 0x100000C, 0, 6, 1, 312, 0, 0] ++ words [0x19, 312] ++ padded "__DATA" ++
    quads [0x100000000, 0x1000, 0, 456] ++ words [3, 3, 3, 0] ++
    sectionOf "__objc_protolist" 0x100000158 8 344 ++
    sectionOf "__const" 0x100000160 104 352 ++
    sectionOf "__objc_imageinfo" 0x1000001C8 0x1000000000000000 456 ++
    quads [0x100000160] ++ quads [0, 0x1000001C0, 0, 0, 0, 0, 0, 0] ++ words [96, 0] ++
    quads [0, 0, 0] ++ Text.ofString "P" ++ List.replicate 7 0).toArray

/-- The protocol in the only slot is found, but it is lost in the crash before it. -/
theorem metadata_oversizedSlice :
    ∃ image, ofSlice oversizedSlice none {} = .ok image ∧ image.unreadSlots = [] ∧
      image.slotMetadata.protocols.map (·.name) = [Text.ofString "P"] ∧
      image.metadata = .crashed := by
  have hopen := ofSlice_eq_of_size_le
    (show oversizedSlice.size ≤ sliceSize {} none by decide +kernel)
  have hread : (ofContents oversizedSlice (sliceSize {} none) 0).toOption.map (fun image =>
      (image.unreadSlots.map Error.kind, image.slotMetadata.protocols.map (·.name),
        image.hasOversizedInfo)) = some ([], [Text.ofString "P"], true) := by decide +kernel
  obtain ⟨image, himage, hfields⟩ := Option.map_eq_some_iff.1 hread
  simp only [Prod.mk.injEq] at hfields
  obtain ⟨hunread, hprotocols, hsize⟩ := hfields
  exact ⟨image, hopen.trans (Except.toOption_eq_some_iff.1 himage), List.map_eq_nil_iff.1 hunread,
    hprotocols, image.metadata_eq_crashed_iff.2 hsize⟩

end Image

end ObjcLens
