import Mathlib
import ObjcLens.Record.Metadata

/-!
# Properties that pass from the steps of a reader to the whole

Readers of records are put together from a few steps: pointers, numbers and texts of the image,
texts that are decoded, and names that may have been kept. A property that holds of these steps and
is passed on by sequences and by handlers of errors holds of the readers of classes, protocols and
categories. `CompositionalReads`, `Compositional` and `CompositionalWithNames` collect what has to
be shown of a property for this: the first is enough where nothing is decoded, the second where no
names are kept.

## Main results

* `CompositionalWithNames.readClass`, `CompositionalWithNames.readProtocol`,
  `CompositionalWithNames.readCategory`: the property holds of all readers of records.
-/

namespace ObjcLens

/-- Refuses a range of addresses that does not lie in one readable section. -/
def Image.checkRange (image : Image) (addr size : UInt64) : Except Error Unit :=
  match image.sectionAt? addr with
  | none => .error (.dangling addr [] [])
  | some s =>
    if addr + size < addr || s.addr + s.size < addr + size then .error (.dangling addr [] [])
    else if s.encrypted then .error (.encrypted s.segment s.name addr)
    else .ok ()

namespace RecordReader

/-- Whether a range can be read is a question to the image alone. -/
theorem checkRange_eq (addr size : UInt64) :
    checkRange addr size = read >>= fun context =>
      ofExcept (context.image.checkRange addr size) := by
  refine bind_congr fun context => ?_
  unfold Image.checkRange
  cases context.image.sectionAt? addr with
  | none => rfl
  | some s =>
    dsimp only
    split
    · rfl
    · split <;> rfl

/-- The property holds of the steps that neither look up names nor decode anything, and of readers
that are put together. -/
structure CompositionalReads (P : ∀ {α : Type}, RecordReader α → Prop) : Prop where
  pure : ∀ {α : Type} (a : α), P (pure a)
  throw : ∀ {α : Type} (error : Error), P (throw error : RecordReader α)
  bind : ∀ {α β : Type} {m : RecordReader α} {f : α → RecordReader β}, P m → (∀ a, P (f a)) →
    P (m >>= f)
  tryCatch : ∀ {α : Type} {m : RecordReader α} {f : Error → RecordReader α}, P m →
    (∀ e, P (f e)) → P (tryCatch m f)
  read_bind : ∀ {α : Type} {f : Context → RecordReader α},
    (∀ c d : Context, c.categoryClassProperties = d.categoryClassProperties → f c = f d) →
    (∀ c, P (f c)) → P (read >>= f)
  note : ∀ entry, P (note entry)
  pointerSize : P pointerSize
  pointerAt : ∀ addr, P (pointerAt addr)
  word32At : ∀ addr, P (word32At addr)
  checkRange : ∀ addr size, P (checkRange addr size)
  text : ∀ addr, P (text addr)

namespace CompositionalReads

variable {P : ∀ {α : Type}, RecordReader α → Prop} (h : CompositionalReads P)
include h

/-- Naming the record and the field of a failure keeps the property. -/
theorem annotating {α : Type} {m : RecordReader α} (hm : P m) (record field : Text) :
    P (annotating record field m) := by
  apply h.tryCatch hm
  intro e
  exact h.throw _

/-- A list is read element by element. -/
theorem mapM {α β : Type} {f : β → RecordReader α} (hf : ∀ b, P (f b)) (l : List β) :
    P (l.mapM f) := by
  induction l with
  | nil => exact h.pure _
  | cons b l ih =>
    rw [List.mapM_cons]
    exact h.bind (hf b) fun _ => h.bind ih fun _ => h.pure _

/-- Pointers side by side are read one after the other. -/
theorem pointersFrom (size : UInt64) (count : Nat) (addr : UInt64) :
    P (pointersFrom size count addr) := by
  induction count generalizing addr with
  | zero => exact h.pure _
  | succ count ih => exact h.bind (h.pointerAt addr) fun _ => h.bind (ih _) fun _ => h.pure _

theorem pointers (addr : UInt64) (count : Nat) : P (pointers addr count) :=
  h.bind h.pointerSize fun _ => h.bind (h.checkRange _ _) fun _ => h.pointersFrom _ _ _

theorem listHeader (addr : UInt64) (minimum : UInt32) : P (listHeader addr minimum) := by
  refine h.bind (h.word32At _) fun _ => h.bind (h.word32At _) fun _ => ?_
  dsimp only
  split
  · exact h.bind (h.throw _) fun _ => h.bind (h.checkRange _ _) fun _ => h.pure _
  · exact h.bind (h.checkRange _ _) fun _ => h.pure _

theorem classRecord (addr : UInt64) : P (classRecord addr) :=
  h.bind (h.pointers _ _) fun _ => h.pure _

theorem dataOf (record : ClassRecord) : P (dataOf record) :=
  h.bind h.pointerSize fun _ => h.bind (h.word32At _) fun _ => h.bind (h.word32At _) fun _ =>
    h.bind (h.word32At _) fun _ => h.bind h.pointerSize fun _ => h.bind (h.pointers _ _) fun _ =>
    h.pure _

theorem protocolRecord (addr : UInt64) : P (protocolRecord addr) := by
  refine h.bind (h.pointers _ _) fun words => h.bind h.pointerSize fun size =>
    h.bind (h.word32At _) fun _ => h.bind (h.word32At _) fun _ => ?_
  extract_lets present extra
  have hextra (index : UInt64) : P (extra index) := by
    change P (if _ then _ else _)
    split
    · exact h.bind (h.pointerAt _) fun _ => h.pure _
    · exact h.pure _
  exact h.bind (hextra 0) fun _ => h.bind (hextra 1) fun _ => h.bind (hextra 2) fun _ => h.pure _

end CompositionalReads

/-- The property holds of the steps that decode something as well. -/
structure Compositional (P : ∀ {α : Type}, RecordReader α → Prop) : Prop
    extends CompositionalReads P where
  decodeType : ∀ encoding, P (decodeType encoding)
  decodeMethod : ∀ encoding, P (decodeMethod encoding)
  smallMethod : ∀ isClassMethod direct addr, P (smallMethod isClassMethod direct addr)

namespace Compositional

variable {P : ∀ {α : Type}, RecordReader α → Prop} (h : Compositional P)
include h

/-- The entries of a list are read at a distance of their size. -/
theorem entriesFrom {α : Type} {item : UInt64 → RecordReader α} (hitem : ∀ addr, P (item addr))
    (size : UInt64) (count : Nat) (addr : UInt64) : P (entriesFrom item size count addr) := by
  induction count generalizing addr with
  | zero => exact h.pure _
  | succ count ih => exact h.bind (hitem addr) fun _ => h.bind (ih _) fun _ => h.pure _

theorem bigMethod (isClassMethod : Bool) (addr : UInt64) : P (bigMethod isClassMethod addr) :=
  h.bind (h.pointers _ _) fun _ => h.bind (h.text _) fun _ => h.bind (h.text _) fun _ =>
    h.bind (h.decodeMethod _) fun _ => h.pure _

/-- A method list is its header and then its entries, of the size the header names. -/
theorem methods (addr : UInt64) (isClassMethod : Bool) : P (methods addr isClassMethod) := by
  unfold RecordReader.methods
  split
  · exact h.pure _
  · refine h.bind (h.word32At _) fun _ => h.bind h.pointerSize fun _ =>
      h.bind (h.listHeader _ _) fun _ => ?_
    split
    · exact h.entriesFrom (h.smallMethod _ _) _ _ _
    · exact h.entriesFrom (h.bigMethod _) _ _ _

theorem ivar (addr : UInt64) : P (ivar addr) := by
  refine h.bind (h.pointers _ _) fun words => h.bind h.pointerSize fun _ =>
    h.bind (h.word32At _) fun _ => h.bind (h.word32At _) fun _ => ?_
  extract_lets finish
  have hfinish (offset : UInt32) : P (finish offset) :=
    h.bind (h.text _) fun _ => h.bind (h.text _) fun _ => h.bind (h.decodeType _) fun _ => h.pure _
  split
  · exact h.bind (h.pure _) hfinish
  · exact h.bind (h.word32At _) hfinish

theorem ivars (addr : UInt64) : P (ivars addr) := by
  unfold RecordReader.ivars
  split
  · exact h.pure _
  · exact h.bind h.pointerSize fun _ => h.bind (h.listHeader _ _) fun _ =>
      h.entriesFrom h.ivar _ _ _

theorem property (addr : UInt64) : P (property addr) := by
  refine h.bind (h.pointers _ _) fun _ => h.bind (h.text _) fun _ => h.bind (h.text _) fun _ => ?_
  dsimp only
  split
  · exact h.pure _
  · exact h.bind (h.decodeType _) fun _ => h.pure _

theorem properties (addr : UInt64) : P (properties addr) := by
  unfold RecordReader.properties
  split
  · exact h.pure _
  · exact h.bind h.pointerSize fun _ => h.bind (h.listHeader _ _) fun _ =>
      h.entriesFrom h.property _ _ _

theorem extendMethod (m : Method) (types : Text) : P (extendMethod m types) := by
  unfold RecordReader.extendMethod
  split
  · exact h.pure _
  · exact h.bind (h.decodeMethod _) fun _ => h.pure _

/-- Extended encodings are given to the methods one by one. -/
theorem extendMethods (ms : List Method) (encodings : List Text) :
    P (extendMethods ms encodings) := by
  induction ms generalizing encodings with
  | nil => exact h.pure _
  | cons m ms ih =>
    cases encodings with
    | nil => exact h.pure _
    | cons types encodings =>
      exact h.bind (h.extendMethod m types) fun _ => h.bind (ih encodings) fun _ => h.pure _

theorem extendProtocol (addr : UInt64) (p : Protocol) : P (extendProtocol addr p) := by
  unfold RecordReader.extendProtocol
  dsimp only
  split
  · exact h.pure _
  · exact h.bind (h.pointers _ _) fun _ => h.bind (h.mapM (fun _ => h.text _) _) fun _ =>
      h.bind (h.extendMethods _ _) fun _ => h.bind (h.extendMethods _ _) fun _ =>
      h.bind (h.extendMethods _ _) fun _ => h.bind (h.extendMethods _ _) fun _ => h.pure _

theorem skip {α : Type} (record : Text) (error : Error) :
    P (skip record error : RecordReader (Outcome α)) := by
  unfold RecordReader.skip
  split
  · exact h.bind (h.throw _) fun _ => h.bind (h.note _) fun _ => h.pure _
  · exact h.bind (h.note _) fun _ => h.pure _

section Lists

variable {α : Type} {item : UInt64 → RecordReader α} (hitem : ∀ addr, P (item addr))
include hitem

theorem listEntry (s : Section) (record : Text) (index : Nat) (place : UInt64) :
    P (listEntry s record item index place) := by
  refine h.tryCatch (h.bind (h.pointerAt _) fun _ => ?_) fun _ => h.skip _ _
  split
  · exact h.pure _
  · exact h.tryCatch (h.bind (hitem _) fun _ => h.pure _) fun _ => h.skip _ _

/-- The entries of a list section are read one after the other. -/
theorem listEntries (s : Section) (record : Text) (size : UInt64) (count index : Nat)
    (place : UInt64) : P (listEntries s record item size count index place) := by
  induction count generalizing index place with
  | zero => exact h.pure _
  | succ count ih =>
    exact h.bind (h.listEntry hitem s record index place) fun _ =>
      h.bind (ih _ _) fun _ => h.pure _

theorem listSection (record : Text) (s : Section) : P (listSection record item s) := by
  unfold RecordReader.listSection
  split
  · exact h.skip _ _
  · exact h.bind h.pointerSize fun _ => h.listEntries hitem _ _ _ _ _ _

/-- Sections of the same kind are read in the order they stand in. -/
theorem listSections (record : Text) (sections : List Section) :
    P (listSections record item sections) := by
  induction sections with
  | nil => exact h.pure _
  | cons s rest ih =>
    exact h.bind (h.listSection hitem record s) fun _ => h.bind ih fun _ => h.pure _

end Lists

end Compositional

/-- The property holds of the steps that look up and keep names as well. The name under which a
record is kept is read just before. -/
structure CompositionalWithNames (P : ∀ {α : Type}, RecordReader α → Prop) : Prop
    extends Compositional P where
  className : ∀ addr, P (className addr)
  protocolName : ∀ addr, P (protocolName addr)
  keepClassName_bind : ∀ {α : Type} {f : ClassRecord → ClassData → Text → RecordReader α}
    (addr : UInt64), (∀ record data name, P (f record data name)) → P (do
      let record ← classRecord addr
      let data ← annotating [] "data" (dataOf record)
      let name ← annotating [] "name" (RecordReader.text data.name)
      modify fun p => { p with classNames := (addr, name) :: p.classNames }
      f record data name)
  keepProtocolName_bind : ∀ {α : Type} {f : ProtocolRecord → Text → RecordReader α}
    (addr : UInt64), (∀ record name, P (f record name)) → P (do
      let record ← protocolRecord addr
      let name ← annotating [] "name" (RecordReader.text record.name)
      modify fun p => { p with protocolNames := (addr, name) :: p.protocolNames }
      f record name)

namespace CompositionalWithNames

variable {P : ∀ {α : Type}, RecordReader α → Prop} (h : CompositionalWithNames P)
include h

theorem classReference (pointer : Image.Pointer) : P (classReference pointer) := by
  unfold RecordReader.classReference
  split
  · exact h.pure _
  · split
    · exact h.pure _
    · exact h.className _

theorem protocolReference (pointer : Image.Pointer) : P (protocolReference pointer) := by
  unfold RecordReader.protocolReference
  split
  · exact h.protocolName _
  · exact h.pure _

theorem protocolNames (addr : UInt64) : P (protocolNames addr) := by
  unfold RecordReader.protocolNames
  split
  -- a count that is no number of entries is refused before any entry is read
  · exact h.pure _
  · refine h.bind (h.pointerAt _) fun _ => ?_
    have hnames (size : UInt64) (count : Nat) :
        P (do (← RecordReader.pointers (addr + size) count).mapM RecordReader.protocolReference) :=
      h.bind (h.pointers _ _) fun _ => h.mapM h.protocolReference _
    dsimp only
    split
    · exact h.pure _
    · split
      · exact h.bind (h.throw _) fun _ => h.bind h.pointerSize fun _ => hnames _ _
      · exact h.bind h.pointerSize fun _ => hnames _ _

/-- Reading a class is made of the steps above. -/
theorem readClass (addr : UInt64) : P (readClass addr) := by
  refine h.keepClassName_bind addr fun record data name => ?_
  extract_lets label finish
  have hfinish (superclass : Text) : P (finish superclass) := by
    refine h.bind (h.annotating (h.methods _ _) _ _) fun _ =>
      h.bind (h.annotating (h.protocolNames _) _ _) fun _ =>
      h.bind (h.annotating (h.ivars _) _ _) fun _ =>
      h.bind (h.annotating (h.properties _) _ _) fun _ => ?_
    dsimp only
    split
    · exact h.pure _
    · refine h.bind (h.annotating (h.bind (h.classRecord _) fun _ => h.dataOf _) _ _) fun _ => ?_
      split
      · exact h.pure _
      · exact h.bind (h.annotating (h.methods _ _) _ _) fun _ =>
          h.bind (h.annotating (h.properties _) _ _) fun _ => h.pure _
  split
  · exact h.bind (h.pure _) hfinish
  · exact h.bind (h.annotating (h.classReference _) _ _) hfinish

/-- Reading a protocol is made of the steps above. -/
theorem readProtocol (addr : UInt64) : P (readProtocol addr) := by
  refine h.keepProtocolName_bind addr fun record name => ?_
  refine h.bind (h.annotating (h.protocolNames _) _ _) fun _ =>
    h.bind (h.annotating (h.methods _ _) _ _) fun _ =>
    h.bind (h.annotating (h.methods _ _) _ _) fun _ =>
    h.bind (h.annotating (h.methods _ _) _ _) fun _ =>
    h.bind (h.annotating (h.methods _ _) _ _) fun _ =>
    h.bind (h.annotating (h.properties _) _ _) fun _ =>
    h.bind (h.annotating (h.properties _) _ _) fun _ =>
    h.bind (h.annotating (h.text _) _ _) fun _ => ?_
  dsimp only
  split
  · exact h.pure _
  · refine h.tryCatch (h.extendProtocol _ _) fun _ => ?_
    split
    · exact h.bind (h.throw _) fun _ => h.bind (h.note _) fun _ => h.pure _
    · exact h.bind (h.note _) fun _ => h.pure _

/-- Reading a category is made of the steps above. -/
theorem readCategory (addr : UInt64) : P (readCategory addr) := by
  refine h.read_bind ?_ fun context => ?_
  · intro c d hflag
    simp only [hflag]
  · refine h.bind (h.pointers _ _) fun words => h.bind (h.annotating (h.text _) _ _) fun _ =>
      h.bind (h.annotating (h.classReference _) _ _) fun _ =>
      h.bind (h.annotating (h.methods _ _) _ _) fun _ =>
      h.bind (h.annotating (h.methods _ _) _ _) fun _ =>
      h.bind (h.annotating (h.protocolNames _) _ _) fun _ =>
      h.bind (h.annotating (h.properties _) _ _) fun _ =>
      h.bind (h.annotating ?_ _ _) fun _ => h.pure _
    -- the last pointer is part of the record only if the image says so
    split
    · exact h.properties _
    · exact h.pure _

end CompositionalWithNames

end RecordReader

end ObjcLens
