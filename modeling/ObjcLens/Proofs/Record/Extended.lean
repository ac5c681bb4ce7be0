import Mathlib
import ObjcLens.Proofs.Record.Slots

/-!
# Extended signatures of protocols

A protocol may have a table of extended signatures, with one entry for every method of its four
lists in order. The reader of protocols reads the whole table before it uses any of it. If that
fails the protocol keeps the signatures of its lists, unless the read reaches beyond the end of the
slice, which ends the reading of the whole image.

## Main results

* `textTable_eq_ok_iff`: which texts a table holds.
* `alone_extendProtocol`, `alone_readProtocol`: what becomes of a protocol with a table.
* `protocols_extended_as_a_whole`: the protocols of an opened image.
-/

namespace ObjcLens

/-! ## Protocols with other signatures -/

/-- The type of the method is what its signature is decoded to. -/
def Method.IsDecoded (m : Method) : Prop := m.type = some (MethodType.decode m.types)

/-- Replacing the encoding of a method decodes it anew. -/
theorem Method.IsDecoded.withTypes {m : Method} (h : m.IsDecoded) (types : Text) :
    (m.withTypes types).IsDecoded := by
  unfold Method.withTypes
  split
  · exact h
  · rfl

namespace Protocol

/-- All methods, in the order of the table of extended signatures. -/
def methods (p : Protocol) : List Method :=
  p.instanceMethods ++ p.classMethods ++ p.optionalInstanceMethods ++ p.optionalClassMethods

/-- The protocol with other signatures, one for every method in order. -/
def withTypes (p : Protocol) (texts : List Text) : Protocol :=
  let classTexts := texts.drop p.instanceMethods.length
  let optionalInstanceTexts := classTexts.drop p.classMethods.length
  let optionalClassTexts := optionalInstanceTexts.drop p.optionalInstanceMethods.length
  { p with
    instanceMethods := List.zipWith Method.withTypes p.instanceMethods texts
    classMethods := List.zipWith Method.withTypes p.classMethods classTexts
    optionalInstanceMethods :=
      List.zipWith Method.withTypes p.optionalInstanceMethods optionalInstanceTexts
    optionalClassMethods :=
      List.zipWith Method.withTypes p.optionalClassMethods optionalClassTexts }

/-- The four lists of a protocol are counted together. -/
theorem length_methods (p : Protocol) : p.methods.length = p.instanceMethods.length +
    p.classMethods.length + p.optionalInstanceMethods.length + p.optionalClassMethods.length := by
  simp [methods, Nat.add_assoc]

private theorem zipWith_append_left {α β γ : Type} (f : α → β → γ) (front back : List α)
    (l : List β) : List.zipWith f (front ++ back) l =
      List.zipWith f front l ++ List.zipWith f back (l.drop front.length) := by
  induction front generalizing l with
  | nil => rfl
  | cons a front ih =>
    cases l with
    | nil => simp
    | cons b l => simp [ih]

/-- The methods get their signatures one by one, whichever list they are in. -/
theorem methods_withTypes (p : Protocol) (texts : List Text) :
    (p.withTypes texts).methods = List.zipWith Method.withTypes p.methods texts := by
  simp only [methods, withTypes, zipWith_append_left, List.length_append, List.drop_drop,
    Nat.add_assoc]

theorem withTypes_of_methods_eq_nil {p : Protocol} (h : p.methods = []) (texts : List Text) :
    p.withTypes texts = p := by
  simp only [methods, List.append_eq_nil_iff] at h
  obtain ⟨⟨⟨hinstance, hclass⟩, hoptional⟩, hoptionalClass⟩ := h
  cases p
  simp_all [withTypes]

end Protocol

/-! ## Tables of texts -/

namespace Image

/-- The text at an address, empty for the address zero. -/
def textAt (image : Image) (addr : UInt64) : Except Error Text :=
  if addr = 0 then .ok [] else image.cstring addr

/-- The pointer in a slot of a table. -/
def slotPointer (image : Image) (table : UInt64) (index : Nat) : Except Error Pointer :=
  image.pointerAt (table + index.toUInt64 * image.pointerSize.toUInt64)

/-- The texts that a number of pointers lead to. The pointers lie in one readable section, and all
of them are read before the texts. -/
def textTable (image : Image) (table : UInt64) (count : Nat) : Except Error (List Text) := do
  image.checkRange table (count.toUInt64 * image.pointerSize.toUInt64)
  let pointers ← (List.range count).mapM (image.slotPointer table)
  pointers.mapM fun pointer => image.textAt pointer.addr

/-- The table has the texts, and all of it can be read. -/
structure IsTextTable (image : Image) (table : UInt64) (texts : List Text) : Prop where
  checkRange : image.checkRange table (texts.length.toUInt64 * image.pointerSize.toUInt64) = .ok ()
  text : ∀ (index : Nat) (h : index < texts.length), ∃ pointer,
    image.slotPointer table index = .ok pointer ∧ image.textAt pointer.addr = .ok texts[index]

/-- A table is read exactly when each of its pointers leads to a text. -/
theorem textTable_eq_ok_iff {image : Image} {table : UInt64} {count : Nat} {texts : List Text} :
    image.textTable table count = .ok texts ↔
      texts.length = count ∧ image.IsTextTable table texts := by
  have hpointers (pointers : List Pointer) :
      (List.range count).mapM (image.slotPointer table) = .ok pointers ↔
        List.Forall₂ (fun index pointer => image.slotPointer table index = .ok pointer)
          (List.range count) pointers := Except.mapM_eq_ok_iff fun _ _ _ => Iff.rfl
  have htexts (pointers : List Pointer) :
      pointers.mapM (fun pointer => image.textAt pointer.addr) = .ok texts ↔
        List.Forall₂ (fun pointer text => image.textAt pointer.addr = .ok text)
          pointers texts := Except.mapM_eq_ok_iff fun _ _ _ => Iff.rfl
  rw [textTable, Except.bind_eq_ok_iff]
  simp only [Except.bind_eq_ok_iff, hpointers, htexts]
  constructor
  -- each text stands at the address its own slot of the table holds
  · rintro ⟨_, hrange, pointers, hpointers, htexts⟩
    obtain rfl : texts.length = count := by
      rw [← htexts.length_eq, ← hpointers.length_eq, List.length_range]
    refine ⟨rfl, hrange, fun index hindex => ?_⟩
    have hlength : index < pointers.length := htexts.length_eq ▸ hindex
    have hrange : index < (List.range texts.length).length := by rwa [List.length_range]
    have hpointer := hpointers.get hrange hlength
    rw [List.get_eq_getElem, List.getElem_range] at hpointer
    exact ⟨pointers[index], hpointer, htexts.get hlength hindex⟩
  -- conversely, collect the pointers the slots hold
  · rintro ⟨rfl, hrange, htext⟩
    choose pointer hpointer htext using htext
    refine ⟨(), hrange, List.ofFn fun index : Fin texts.length => pointer index index.2, ?_, ?_⟩
    · refine List.forall₂_iff_get.2 ⟨by simp, fun index _ hlength => ?_⟩
      rw [List.length_ofFn] at hlength
      simpa using hpointer index hlength
    · refine List.forall₂_iff_get.2 ⟨by simp, fun index _ hlength => ?_⟩
      simpa using htext index hlength

/-- A table without slots is never beyond the end of the slice. -/
theorem kind_of_textTable_zero {image : Image} {table : UInt64} {e : Error}
    (h : image.textTable table 0 = .error e) : e.kind ≠ .truncated := by
  rw [textTable, checkRange] at h
  split at h
  · cases h
    simp [Error.kind]
  · split at h
    · cases h
      simp [Error.kind]
    · split at h
      · cases h
        simp [Error.kind]
      · cases h

end Image

namespace RecordReader

variable {context : Context}

theorem alone_text (addr : UInt64) : (text addr).alone context = context.image.textAt addr := by
  unfold text Image.textAt
  split
  · rfl
  · rw [alone_read_bind fun _ => rfl]
    cases context.image.cstring addr <;> rfl

theorem alone_checkRange (addr size : UInt64) :
    (checkRange addr size).alone context = context.image.checkRange addr size := by
  rw [checkRange_eq, alone_read_bind fun _ => rfl]
  cases context.image.checkRange addr size <;> rfl

/-- A list is read on its own by reading each element on its own. -/
theorem alone_mapM {α β : Type} {f : β → RecordReader α} (hf : ∀ b, Steady context (f b))
    (l : List β) : (l.mapM f).alone context = l.mapM fun b => (f b).alone context := by
  have h := compositional_steady context
  induction l with
  | nil => rfl
  | cons b l ih =>
    rw [List.mapM_cons, List.mapM_cons, alone_bind (hf b) fun _ _ =>
      h.bind (h.mapM hf l) fun _ => h.pure _]
    congr 1
    funext a
    rw [alone_bind (h.mapM hf l) fun _ _ => h.pure _, ih]
    rfl

/-- Pointers are read one after the other, from an index on. -/
theorem alone_pointersFrom (addr : UInt64) (count index : Nat) :
    (pointersFrom context.image.pointerSize.toUInt64 count
      (addr + index.toUInt64 * context.image.pointerSize.toUInt64)).alone context =
      (List.range' index count).mapM fun index => context.image.pointerWith context.chained
        (addr + index.toUInt64 * context.image.pointerSize.toUInt64) := by
  have h := compositional_steady context
  induction count generalizing index with
  | zero => rfl
  | succ count ih =>
    -- entry `index` is at the table's start plus `index` pointers, so the next call is at its
    -- successor
    rw [pointersFrom, alone_bind (h.pointerAt _) fun _ _ =>
      h.bind (h.pointersFrom _ _ _) fun _ => h.pure _, alone_pointerAt, List.range'_succ,
      List.mapM_cons]
    congr 1
    funext first
    rw [alone_bind (h.pointersFrom _ _ _) fun _ _ => h.pure _, slot_add_size, ih]
    rfl

theorem alone_pointers (addr : UInt64) (count : Nat) :
    (pointers addr count).alone context =
      (context.image.checkRange addr (count.toUInt64 * context.image.pointerSize.toUInt64) >>=
        fun _ => (List.range count).mapM fun index => context.image.pointerWith context.chained
          (addr + index.toUInt64 * context.image.pointerSize.toUInt64)) := by
  have h := compositional_steady context
  have hsize : (pointerSize).alone context = .ok context.image.pointerSize.toUInt64 := rfl
  have hall := @alone_pointersFrom context addr count 0
  have hfirst : addr + (0 : Nat).toUInt64 * context.image.pointerSize.toUInt64 = addr := by simp
  rw [hfirst, ← List.range_eq_range'] at hall
  rw [pointers, alone_bind h.pointerSize fun _ _ =>
    h.bind (h.checkRange _ _) fun _ => h.pointersFrom _ _ _, hsize, Except.ok_bind,
    alone_bind (h.checkRange _ _) fun _ _ => h.pointersFrom _ _ _, alone_checkRange, hall]

/-- The texts of a table. -/
def texts (table : UInt64) (count : Nat) : RecordReader (List Text) := do
  (← pointers table count).mapM fun pointer => text pointer.addr

/-- The protocol with the signatures that were read, list by list. -/
def extendLists (p : Protocol) (encodings : List Text) : RecordReader Protocol := do
  let (instanceMethods, encodings) ← extendMethods p.instanceMethods encodings
  let (classMethods, encodings) ← extendMethods p.classMethods encodings
  let (optionalInstanceMethods, encodings) ← extendMethods p.optionalInstanceMethods encodings
  let (optionalClassMethods, _) ← extendMethods p.optionalClassMethods encodings
  return { p with
    instanceMethods, classMethods, optionalInstanceMethods, optionalClassMethods }

/-- All of the table is read before any of it is used. -/
theorem extendProtocol_eq (table : UInt64) (p : Protocol) : extendProtocol table p =
    if p.methods = [] then pure p else texts table p.methods.length >>= extendLists p := by
  unfold extendProtocol extendLists texts
  simp only [← List.length_eq_zero_iff, Protocol.length_methods, bind_assoc]

theorem steady_texts (table : UInt64) (count : Nat) : Steady context (texts table count) :=
  have h := compositional_steady context
  h.bind (h.pointers _ _) fun _ => h.mapM (fun _ => h.text _) _

theorem steady_extendLists (p : Protocol) (encodings : List Text) :
    Steady context (extendLists p encodings) :=
  have h := compositional_steady context
  h.bind (h.extendMethods _ _) fun _ => h.bind (h.extendMethods _ _) fun _ =>
    h.bind (h.extendMethods _ _) fun _ => h.bind (h.extendMethods _ _) fun _ => h.pure _

theorem alone_texts (image : Image) (table : UInt64) (count : Nat) :
    (texts table count).alone image.recordContext = image.textTable table count := by
  have h := compositional_steady image.recordContext
  have htext (pointer : Image.Pointer) : Steady image.recordContext (text pointer.addr) := h.text _
  rw [texts, alone_bind (h.pointers _ _) fun _ _ => h.mapM htext _, alone_pointers,
    Image.textTable, bind_assoc]
  congr 1
  funext _
  congr 1
  funext pointers
  rw [alone_mapM htext]
  simp only [alone_text]
  rfl

/-- With one text for each method, the four lists take their texts in order. -/
theorem Reads.extendLists {p : Protocol} {encodings : List Text}
    (hlength : encodings.length = p.methods.length) :
    Reads context (extendLists p encodings) (p.withTypes encodings) := by
  rw [Protocol.length_methods] at hlength
  refine (extendMethods (by omega)).bind ((extendMethods ?_).bind ((extendMethods ?_).bind
    ((extendMethods ?_).bind (pure _))))
  all_goals
    simp only [List.length_drop]
    omega

/-- The signatures of a table are used for all methods, or an error says why it cannot be read. -/
theorem alone_extendProtocol (image : Image) (table : UInt64) (p : Protocol) :
    (extendProtocol table p).alone image.recordContext =
      if p.methods = [] then .ok p
      else (image.textTable table p.methods.length).map p.withTypes := by
  rw [extendProtocol_eq]
  split
  · rfl
  · rw [alone_bind (steady_texts _ _) fun _ _ => steady_extendLists _ _, alone_texts]
    cases htable : image.textTable table p.methods.length with
    | error e => rfl
    | ok encodings => exact (Reads.extendLists (Image.textTable_eq_ok_iff.1 htable).1).alone_eq

/-! ## Protocol records -/

/-- The protocol at an address without extended signatures, and its record. -/
def readPlainProtocol (addr : UInt64) : RecordReader (ProtocolRecord × Protocol) := do
  let record ← protocolRecord addr
  let name ← annotating [] "name" (text record.name)
  modify fun p => { p with protocolNames := (addr, name) :: p.protocolNames }
  let label := "protocol " ++ name
  let protocols ← annotating label "protocols" (protocolNames record.protocols)
  let instanceMethods ←
    annotating label "instanceMethods" (methods record.instanceMethods false)
  let classMethods ← annotating label "classMethods" (methods record.classMethods true)
  let optionalInstanceMethods ←
    annotating label "optionalInstanceMethods" (methods record.optionalInstanceMethods false)
  let optionalClassMethods ←
    annotating label "optionalClassMethods" (methods record.optionalClassMethods true)
  let properties ← annotating label "instanceProperties" (properties record.properties)
  let classProperties ←
    annotating label "classProperties" (RecordReader.properties record.classProperties)
  let demangledName ← annotating label "demangledName" (text record.demangledName)
  return (record, {
    name, protocols, instanceMethods, classMethods, optionalInstanceMethods, addr
    optionalClassMethods, properties, classProperties, demangledName })

/-- The protocol with the signatures of its table, if it has one. -/
def withTable (record : ProtocolRecord) (plain : Protocol) : RecordReader Protocol :=
  if record.extendedTypes = 0 then pure plain
  else tryCatch (extendProtocol record.extendedTypes plain) fun error => do
    if error.kind = .truncated then throw error
    let shown := error.annotate ("protocol " ++ plain.name) "extendedMethodTypes"
    note ⟨.debug, "keeping plain method types", [("error", shown.message)]⟩
    return plain

/-- A protocol is read in two steps, its plain record and then its table. -/
theorem readProtocol_eq (addr : UInt64) :
    readProtocol addr = readPlainProtocol addr >>= fun p => withTable p.1 p.2 := by
  unfold readProtocol readPlainProtocol withTable
  simp only [bind_assoc, pure_bind]

theorem steady_readPlainProtocol (addr : UInt64) : Steady context (readPlainProtocol addr) := by
  have h := compositionalWithNames_steady context
  exact h.keepProtocolName_bind addr fun record name =>
    h.bind (h.annotating (h.protocolNames _) _ _) fun _ =>
    h.bind (h.annotating (h.methods _ _) _ _) fun _ =>
    h.bind (h.annotating (h.methods _ _) _ _) fun _ =>
    h.bind (h.annotating (h.methods _ _) _ _) fun _ =>
    h.bind (h.annotating (h.methods _ _) _ _) fun _ =>
    h.bind (h.annotating (h.properties _) _ _) fun _ =>
    h.bind (h.annotating (h.properties _) _ _) fun _ =>
    h.bind (h.annotating (h.text _) _ _) fun _ => h.pure _

/-- What follows a table that cannot be read. -/
private theorem steady_keepPlain (plain : Protocol) (error : Error) : Steady context (do
    if error.kind = .truncated then throw error
    let shown := error.annotate ("protocol " ++ plain.name) "extendedMethodTypes"
    note ⟨.debug, "keeping plain method types", [("error", shown.message)]⟩
    return plain) := by
  have h := compositional_steady context
  dsimp only
  split
  · exact h.bind (h.throw _) fun _ => h.bind (h.note _) fun _ => h.pure _
  · exact h.bind (h.note _) fun _ => h.pure _

theorem steady_withTable (record : ProtocolRecord) (plain : Protocol) :
    Steady context (withTable record plain) := by
  have h := compositional_steady context
  unfold withTable
  split
  · exact h.pure _
  · exact h.tryCatch (h.extendProtocol _ _) (steady_keepPlain plain)

/-- A table is used as a whole or not at all. Only a read beyond the end of the slice is passed
on. -/
theorem alone_withTable (image : Image) (record : ProtocolRecord) (plain : Protocol) :
    (withTable record plain).alone image.recordContext =
      if record.extendedTypes = 0 ∨ plain.methods = [] then .ok plain
      else match image.textTable record.extendedTypes plain.methods.length with
        | .ok texts => .ok (plain.withTypes texts)
        | .error e => if e.kind = .truncated then .error e else .ok plain := by
  have h := compositional_steady image.recordContext
  unfold withTable
  by_cases htable : record.extendedTypes = 0
  · rw [if_pos htable, if_pos (.inl htable)]
    rfl
  · rw [if_neg htable, alone_tryCatch (h.extendProtocol _ _) (steady_keepPlain plain),
      alone_extendProtocol]
    by_cases hmethods : plain.methods = []
    · rw [if_pos hmethods, if_pos (.inr hmethods)]
    · rw [if_neg hmethods, if_neg (by simp [htable, hmethods])]
      -- a table is used whole or not at all; only a read past the end is passed on
      cases image.textTable record.extendedTypes plain.methods.length with
      | ok texts => rfl
      | error e =>
        by_cases hkind : e.kind = .truncated
        · simp only [if_pos hkind, Except.map]
          rfl
        · simp only [if_neg hkind, Except.map]
          rfl

/-- The two steps of a protocol can be taken on their own. -/
theorem alone_readProtocol (context : Context) (addr : UInt64) :
    (readProtocol addr).alone context =
      (readPlainProtocol addr).alone context >>= fun p => (withTable p.1 p.2).alone context := by
  rw [readProtocol_eq, alone_bind (steady_readPlainProtocol addr) fun _ _ => steady_withTable _ _]

/-- The lists of a protocol are those that its record leads to. -/
structure HasLists (context : Context) (record : ProtocolRecord) (p : Protocol) : Prop where
  instanceMethods :
    (methods record.instanceMethods false).alone context = .ok p.instanceMethods
  classMethods : (methods record.classMethods true).alone context = .ok p.classMethods
  optionalInstanceMethods :
    (methods record.optionalInstanceMethods false).alone context = .ok p.optionalInstanceMethods
  optionalClassMethods :
    (methods record.optionalClassMethods true).alone context = .ok p.optionalClassMethods

/-- The plain record of a protocol has the lists its fields point to. -/
theorem hasLists_of_readPlainProtocol {addr : UInt64} {record : ProtocolRecord} {plain : Protocol}
    (h : (readPlainProtocol addr).alone context = .ok (record, plain)) :
    plain.addr = addr ∧ (protocolRecord addr).alone context = .ok record ∧
      HasLists context record plain := by
  have hsteady := compositionalWithNames_steady context
  obtain ⟨after, hrun⟩ := alone_eq_ok_iff.1 h
  obtain ⟨record', _, hrecord, hkeeps, hrun⟩ :=
    (hsteady.protocolRecord addr).exists_of_run_bind .empty hrun
  obtain ⟨name, _, hname, hkeeps, hrun⟩ :=
    (hsteady.annotating (hsteady.text _) _ _).exists_of_run_bind hkeeps hrun
  have hkept : (nameOfProtocol addr).alone context = .ok name := by
    rw [alone_nameOfProtocol hrecord]
    exact alone_of_annotating (hsteady.text _) hname
  obtain ⟨_, _, -, hkeeps, hrun⟩ := (Steady.keepProtocolName hkept).exists_of_run_bind hkeeps hrun
  obtain ⟨_, _, -, hkeeps, hrun⟩ :=
    (hsteady.annotating (hsteady.protocolNames _) _ _).exists_of_run_bind hkeeps hrun
  have hlist (addr : UInt64) (isClassMethod : Bool) (label field : Text) :=
    hsteady.annotating (hsteady.methods addr isClassMethod) label field
  obtain ⟨_, _, hinstance, hkeeps, hrun⟩ := (hlist _ _ _ _).exists_of_run_bind hkeeps hrun
  obtain ⟨_, _, hclass, hkeeps, hrun⟩ := (hlist _ _ _ _).exists_of_run_bind hkeeps hrun
  obtain ⟨_, _, hoptional, hkeeps, hrun⟩ := (hlist _ _ _ _).exists_of_run_bind hkeeps hrun
  obtain ⟨_, _, hoptionalClass, hkeeps, hrun⟩ := (hlist _ _ _ _).exists_of_run_bind hkeeps hrun
  obtain ⟨_, _, -, hrun⟩ := RecordReader.exists_of_run_bind _ _ hrun
  obtain ⟨_, _, -, hrun⟩ := RecordReader.exists_of_run_bind _ _ hrun
  obtain ⟨_, _, -, hrun⟩ := RecordReader.exists_of_run_bind _ _ hrun
  obtain ⟨rfl, rfl⟩ := Prod.mk.inj (Except.ok.inj (Prod.mk.inj hrun).1)
  exact ⟨rfl, hrecord, alone_of_annotating (hsteady.methods _ _) hinstance,
    alone_of_annotating (hsteady.methods _ _) hclass,
    alone_of_annotating (hsteady.methods _ _) hoptional,
    alone_of_annotating (hsteady.methods _ _) hoptionalClass⟩

/-! ## Types of methods -/

section Decoded

variable {progress after : Progress} {addr : UInt64} {m : Method}

/-- Both kinds of entries end with the texts of the name and of the types, which are decoded. -/
private theorem isDecoded_of_run_texts {nameAddr typesAddr imp : UInt64} {isClassMethod : Bool}
    (h : ((do
      let name ← text nameAddr
      let types ← text typesAddr
      return ⟨name, types, some (← decodeMethod types), isClassMethod, imp⟩ :
        RecordReader Method) context progress).run = (.ok m, after)) : m.IsDecoded := by
  obtain ⟨name, _, -, h⟩ := exists_of_run_bind _ _ h
  obtain ⟨types, _, -, h⟩ := exists_of_run_bind _ _ h
  obtain ⟨type, _, htype, h⟩ := exists_of_run_bind _ _ h
  obtain rfl := Except.ok.inj (Prod.mk.inj h).1
  obtain rfl : MethodType.decode types = type := Except.ok.inj (Prod.mk.inj htype).1
  rfl

theorem isDecoded_of_run_bigMethod {isClassMethod : Bool}
    (h : (bigMethod isClassMethod addr context progress).run = (.ok m, after)) : m.IsDecoded := by
  obtain ⟨words, _, -, h⟩ := exists_of_run_bind _ _ h
  exact isDecoded_of_run_texts h

theorem isDecoded_of_run_smallMethod {isClassMethod direct : Bool}
    (h : (smallMethod isClassMethod direct addr context progress).run = (.ok m, after)) :
    m.IsDecoded := by
  obtain ⟨_, _, -, h⟩ := exists_of_run_bind _ _ h
  obtain ⟨bytes, _, -, h⟩ := exists_of_run_bind _ _ h
  extract_lets distance target imp finish at h
  split at h
  · obtain ⟨_, _, -, h⟩ := exists_of_run_bind _ _ h
    exact isDecoded_of_run_texts h
  · obtain ⟨_, _, -, h⟩ := exists_of_run_bind _ _ h
    obtain ⟨_, _, -, h⟩ := exists_of_run_bind _ _ h
    exact isDecoded_of_run_texts h

/-- The methods of a list have the types that their signatures are decoded to. -/
theorem isDecoded_of_alone_methods {isClassMethod : Bool} {ms : List Method}
    (h : (methods addr isClassMethod).alone context = .ok ms) (hm : m ∈ ms) : m.IsDecoded := by
  obtain ⟨after, h⟩ := alone_eq_ok_iff.1 h
  rw [methods] at h
  split at h
  · obtain rfl : [] = ms := Except.ok.inj (Prod.mk.inj h).1
    cases hm
  · obtain ⟨_, _, -, h⟩ := exists_of_run_bind _ _ h
    obtain ⟨_, _, -, h⟩ := exists_of_run_bind _ _ h
    obtain ⟨header, _, -, h⟩ := exists_of_run_bind _ _ h
    split at h
    · obtain ⟨_, _, _, hrun⟩ := exists_of_mem_entriesFrom h hm
      exact isDecoded_of_run_smallMethod hrun
    · obtain ⟨_, _, _, hrun⟩ := exists_of_mem_entriesFrom h hm
      exact isDecoded_of_run_bigMethod hrun

/-- Each method of the lists of a protocol has been decoded from its encoding. -/
theorem HasLists.isDecoded {record : ProtocolRecord} {p : Protocol} (h : HasLists context record p)
    (hm : m ∈ p.methods) : m.IsDecoded := by
  simp only [Protocol.methods, List.mem_append] at hm
  rcases hm with ((hm | hm) | hm) | hm
  · exact isDecoded_of_alone_methods h.instanceMethods hm
  · exact isDecoded_of_alone_methods h.classMethods hm
  · exact isDecoded_of_alone_methods h.optionalInstanceMethods hm
  · exact isDecoded_of_alone_methods h.optionalClassMethods hm

end Decoded

end RecordReader

/-- Other signatures come with their types. -/
theorem Protocol.isDecoded_withTypes {p : Protocol} (h : ∀ m ∈ p.methods, m.IsDecoded)
    (texts : List Text) : ∀ m ∈ (p.withTypes texts).methods, m.IsDecoded := by
  intro m hm
  rw [methods_withTypes] at hm
  obtain ⟨index, hindex, rfl⟩ := List.getElem_of_mem hm
  rw [List.getElem_zipWith]
  exact (h _ (List.getElem_mem _)).withTypes _

/-! ## The protocols of an image -/

namespace Image

open RecordReader (SlotFate)

variable {image : Image}

/-- A slot of a readable protocol list leads to the address. -/
structure ListsProtocol (image : Image) (addr : UInt64) : Prop where
  ne_zero : addr ≠ 0
  slot : ∃ s ∈ image.dataSections "__objc_protolist", s.encrypted = false ∧
    ∃ index < (s.size / image.pointerSize.toUInt64).toNat,
      image.slotPointer s.addr index = .ok ⟨addr, []⟩

/-- A protocol that is found is listed at the address it was read from. -/
theorem exists_listsProtocol_of_found {p : Protocol} (h : .found p ∈ image.protocolSlots) :
    ∃ addr, image.ListsProtocol addr ∧
      (RecordReader.readProtocol addr).alone image.recordContext = .ok p := by
  obtain ⟨s, hs, hfate⟩ := List.mem_flatMap.1 h
  -- a slot that gave a protocol is in a section that is not encrypted, and leads to a record
  rw [RecordReader.sectionFates] at hfate
  split at hfate
  · simp at hfate
  · rename_i hencrypted
    obtain ⟨index, hindex, hfate⟩ := List.mem_map.1 hfate
    dsimp only [RecordReader.slotFate] at hfate
    split at hfate
    · rename_i pointer hpointer
      rw [RecordReader.recordFate] at hfate
      split at hfate
      · cases hfate
      · rename_i hleads
        obtain ⟨hsymbol, haddr⟩ : pointer.symbol = [] ∧ pointer.addr ≠ 0 := by
          simpa [not_or] using hleads
        obtain ⟨addr, symbol⟩ := pointer
        obtain rfl : symbol = [] := hsymbol
        refine ⟨addr, ⟨haddr, s, hs, Bool.eq_false_iff.2 hencrypted, index,
          List.mem_range.1 hindex, hpointer⟩, ?_⟩
        split at hfate
        · rename_i hread
          cases hfate
          exact hread
        · cases hfate
    · cases hfate

/-- A protocol that is listed and whose record is read beyond the end of the slice is one of the
unread slots. -/
theorem ListsProtocol.mem_protocolSlots {addr : UInt64} (h : image.ListsProtocol addr) {e : Error}
    (hread : (RecordReader.readProtocol addr).alone image.recordContext = .error e)
    (hkind : e.kind = .truncated) : .unread e ∈ image.protocolSlots := by
  obtain ⟨haddr, s, hs, hencrypted, index, hindex, hpointer⟩ := h
  refine List.mem_flatMap.2 ⟨s, hs, ?_⟩
  rw [RecordReader.sectionFates, if_neg (by simp [hencrypted])]
  refine List.mem_map.2 ⟨index, List.mem_range.2 hindex, ?_⟩
  have hpointer : image.recordContext.image.pointerWith image.recordContext.chained
      (s.addr + index.toUInt64 * image.recordContext.image.pointerSize.toUInt64) =
        .ok ⟨addr, []⟩ := hpointer
  simp only [RecordReader.slotFate, hpointer, RecordReader.recordFate]
  rw [if_neg (by simpa using haddr), hread]
  simp only [Error.annotate_eq_self (e := e) (by simp [hkind])]

/-- A table of signatures is used for all methods of a protocol or for none. -/
structure UsesTable (image : Image) (table : UInt64) (plain p : Protocol) : Prop where
  all_or_none : p = plain ∨ table ≠ 0 ∧ ∃ texts, texts.length = plain.methods.length ∧
    image.IsTextTable table texts ∧ p = plain.withTypes texts ∧
    p.methods = List.zipWith Method.withTypes plain.methods texts
  extended : table ≠ 0 → ∀ texts, texts.length = plain.methods.length →
    image.IsTextTable table texts → p = plain.withTypes texts
  plain_of_range : ∀ e, image.checkRange table
    (plain.methods.length.toUInt64 * image.pointerSize.toUInt64) = .error e → p = plain
  plain_of_text : ∀ index < plain.methods.length, ∀ e, (do
    image.textAt (← image.slotPointer table index).addr) = .error e → p = plain

/-- Reading the table of a protocol replaces the encodings or leaves them all. -/
theorem usesTable_of_withTable {record : RecordReader.ProtocolRecord} {plain p : Protocol}
    (h : (RecordReader.withTable record plain).alone image.recordContext = .ok p) :
    image.UsesTable record.extendedTypes plain p := by
  rw [RecordReader.alone_withTable] at h
  split at h
  · -- there is no table, or no method that would use it
    rename_i hnone
    obtain rfl := Except.ok.inj h
    refine ⟨.inl rfl, fun htable texts _ _ => ?_, fun _ _ => rfl, fun _ _ _ _ => rfl⟩
    exact (Protocol.withTypes_of_methods_eq_nil (hnone.resolve_left htable) texts).symm
  · rename_i hsome
    have htable : record.extendedTypes ≠ 0 := fun h => hsome (.inl h)
    cases hread : image.textTable record.extendedTypes plain.methods.length with
    | ok texts =>
      rw [hread] at h
      obtain rfl := Except.ok.inj h
      obtain ⟨hlength, his⟩ := textTable_eq_ok_iff.1 hread
      refine ⟨.inr ⟨htable, texts, hlength, his, rfl, plain.methods_withTypes texts⟩,
        fun _ texts' hlength' his' => ?_, fun e he => ?_, fun index hindex e he => ?_⟩
      · have hread' := textTable_eq_ok_iff.2 ⟨hlength', his'⟩
        rw [hread] at hread'
        rw [Except.ok.inj hread']
      · rw [← hlength, his.checkRange] at he
        cases he
      · obtain ⟨pointer, hpointer, htext⟩ := his.text index (hlength ▸ hindex)
        rw [hpointer, Except.ok_bind, htext] at he
        cases he
    | error e =>
      simp only [hread] at h
      split at h
      · cases h
      · obtain rfl := Except.ok.inj h
        refine ⟨.inl rfl, fun _ texts hlength his => ?_, fun _ _ => rfl, fun _ _ _ _ => rfl⟩
        rw [textTable_eq_ok_iff.2 ⟨hlength, his⟩] at hread
        cases hread

/-- Extended signatures are used as a whole. A protocol of an opened image has decoded types. It is
what its record says without a table, or has the signature in the table for each of its methods in
order, the empty ones left out. It stays plain if the table, or a text in it, is dangling or
encrypted. If the table is read beyond the end of the slice, there are no metadata at all: unless
the program crashes with the image info, this is reported. -/
theorem protocols_extended_as_a_whole {source : Array UInt8} {told : Option Nat}
    {bounds : SliceBounds} {image : Image} (h : ofSlice source told bounds = .ok image) :
    (∀ m, image.metadata = .returned (.ok m) → ∀ p ∈ m.protocols,
      (∀ method ∈ p.methods, method.IsDecoded) ∧ ∃ record plain,
        (RecordReader.readPlainProtocol p.addr).alone image.recordContext = .ok (record, plain) ∧
        (RecordReader.protocolRecord p.addr).alone image.recordContext = .ok record ∧
        RecordReader.HasLists image.recordContext record plain ∧
        image.UsesTable record.extendedTypes plain p) ∧
      ∀ addr record plain e, image.ListsProtocol addr →
        (RecordReader.readPlainProtocol addr).alone image.recordContext = .ok (record, plain) →
        record.extendedTypes ≠ 0 →
        image.textTable record.extendedTypes plain.methods.length = .error e →
        e.kind = .truncated →
        (image.hasOversizedInfo = true ∧ image.metadata = .crashed) ∨
          ∃ e', image.metadata = .returned (.error e') ∧ e'.kind = .truncated := by
  have hslots (m : Metadata) (hm : image.metadata = .returned (.ok m)) :
      m = image.slotMetadata ∧ ∀ e ∈ image.unreadSlots, e.kind ≠ .truncated := by
    have hsize : image.hasOversizedInfo = false := by
      rw [Bool.eq_false_iff, Ne, ← metadata_eq_crashed_iff, hm]
      rintro ⟨⟩
    have hmetadata := hm.symm.trans (metadata_eq_returned h hsize)
    rw [Attempt.returned.injEq] at hmetadata
    split at hmetadata
    · cases hmetadata
    · rename_i hnone
      exact ⟨Except.ok.inj hmetadata, by simpa using hnone⟩
  refine ⟨fun m hm p hp => ?_, fun addr record plain e hlists hplain htable hread htruncated => ?_⟩
  · rw [(hslots m hm).1] at hp
    obtain ⟨fate, hfound, hfate⟩ := List.mem_filterMap.1 hp
    obtain rfl : fate = .found p := by
      cases fate with
      | found a => exact congrArg _ (Option.some.inj hfate)
      | _ => cases hfate
    obtain ⟨addr, -, hread⟩ := exists_listsProtocol_of_found hfound
    rw [RecordReader.alone_readProtocol] at hread
    obtain ⟨⟨record, plain⟩, hplain, hwith⟩ := Except.bind_eq_ok_iff.1 hread
    obtain ⟨haddr, hrecord, hlists⟩ := RecordReader.hasLists_of_readPlainProtocol hplain
    have huses := usesTable_of_withTable hwith
    have hdecoded : ∀ method ∈ plain.methods, method.IsDecoded := fun _ => hlists.isDecoded
    have hsame : p.addr = addr ∧ ∀ method ∈ p.methods, method.IsDecoded := by
      rcases huses.all_or_none with rfl | ⟨-, texts, -, -, rfl, -⟩
      · exact ⟨haddr, hdecoded⟩
      · exact ⟨haddr, Protocol.isDecoded_withTypes hdecoded texts⟩
    obtain ⟨rfl, hdecoded⟩ := hsame
    exact ⟨hdecoded, record, plain, hplain, hrecord, hlists, huses⟩
  · have hmethods : plain.methods ≠ [] := by
      intro hnil
      rw [hnil, List.length_nil] at hread
      exact kind_of_textTable_zero hread htruncated
    have herror : (RecordReader.readProtocol addr).alone image.recordContext = .error e := by
      rw [RecordReader.alone_readProtocol, hplain, Except.ok_bind, RecordReader.alone_withTable,
        if_neg (by simp [htable, hmethods]), hread]
      simp only [if_pos htruncated]
    have hunread : e ∈ image.unreadSlots := by
      refine List.mem_append_left _ (List.mem_append_left _ (List.mem_filterMap.2
        ⟨_, hlists.mem_protocolSlots herror htruncated, rfl⟩))
    cases hm : image.metadata with
    | crashed => exact .inl ⟨image.metadata_eq_crashed_iff.1 hm, rfl⟩
    | returned result =>
      cases result with
      | error e' => exact .inr ⟨e', rfl, kind_of_metadata_eq_error h hm⟩
      | ok m => exact absurd htruncated ((hslots m hm).2 e hunread)

/-- A slice with a protocol of two methods, and a table at 0x104C whose slots hold null and an
address. The section of the records is longer than the slice. -/
private def tableSlice (table text : UInt32) : Array UInt8 :=
  let words (ns : List UInt32) : Text := ns.flatMap ByteOrder.big.bytes32
  let padded (name : String) : Text := (Text.ofString name ++ List.replicate 16 0).take 16
  let sectionOf (name : String) (addr size offset : UInt32) : Text :=
    padded name ++ padded "__DATA" ++ words [addr, size, offset, 0, 0, 0, 0, 0, 0]
  (words [0xFEEDFACE, 7, 3, 6, 1, 192, 0] ++ words [1, 192] ++ padded "__DATA" ++
    words [0x1000, 0x54, 220, 0x54, 3, 3, 2, 0] ++ sectionOf "__objc_protolist" 0x1000 4 220 ++
    sectionOf "__data" 0x1004 0x100 224 ++ words [0x100C] ++
    Text.ofString "m" ++ [0] ++ Text.ofString "v" ++ [0] ++ Text.ofString "i" ++ [0, 0, 0] ++
    words [0, 0x1004, 0, 0x1038, 0x1038, 0, 0, 0, 44, 0, table] ++
    words [12, 1, 0x1004, 0x1006, 0] ++ words [0, text]).toArray

private theorem exists_of_protocols (slice : Array UInt8) (types : List Text)
    (hsize : slice.size ≤ sliceSize {} none) (h : (do
      let image ← (ofContents slice (sliceSize {} none) 0).toOption
      let result ← image.metadata.returned?
      let m ← result.toOption
      return m.protocols.map fun p => p.methods.map (·.types)) = some [types]) :
    ∃ image m p, ofSlice slice none {} = .ok image ∧ image.metadata = .returned (.ok m) ∧
      p ∈ m.protocols ∧ p.methods.map (·.types) = types := by
  rw [ofSlice_eq_of_size_le hsize]
  obtain ⟨image, himage, h⟩ := Option.bind_eq_some_iff.1 h
  obtain ⟨result, hresult, h⟩ := Option.bind_eq_some_iff.1 h
  obtain ⟨m, hm, h⟩ := Option.bind_eq_some_iff.1 h
  obtain ⟨p, hp, hmap⟩ := List.map_eq_singleton_iff.1 (Option.some.inj h)
  obtain rfl := Except.toOption_eq_some_iff.1 hm
  exact ⟨image, m, p, Except.toOption_eq_some_iff.1 himage, Attempt.returned?_eq_some_iff.1 hresult,
    hp ▸ List.mem_singleton_self p, hmap⟩

/-- The table of the protocol at an address is read beyond the end of the slice. -/
private def readsBeyond (image : Image) (addr : UInt64) : Bool :=
  match (RecordReader.readPlainProtocol addr).alone image.recordContext with
  | .ok (record, plain) => record.extendedTypes ≠ 0 &&
      match image.textTable record.extendedTypes plain.methods.length with
      | .ok _ => false
      | .error e => e.kind = .truncated
  | .error _ => false

private theorem exists_of_readsBeyond {image : Image} {addr : UInt64}
    (h : image.readsBeyond addr = true) : ∃ record plain e,
      (RecordReader.readPlainProtocol addr).alone image.recordContext = .ok (record, plain) ∧
      record.extendedTypes ≠ 0 ∧
      image.textTable record.extendedTypes plain.methods.length = .error e ∧
      e.kind = .truncated := by
  unfold readsBeyond at h
  split at h
  · rename_i record plain hplain
    obtain ⟨htable, h⟩ := Bool.and_eq_true_iff.1 h
    split at h
    · cases h
    · rename_i e hread
      exact ⟨record, plain, e, hplain, of_decide_eq_true htable, hread, of_decide_eq_true h⟩
  · cases h

/-- The first method keeps its signature, since that in the table is empty, and the second one gets
another. A table beyond the end of the slice leaves no protocol. -/
theorem protocols_extended_tableSlice :
    (∃ image m p, ofSlice (tableSlice 0x104C 0x1008) none {} = .ok image ∧
      image.metadata = .returned (.ok m) ∧ p ∈ m.protocols ∧
      (∀ method ∈ p.methods, method.IsDecoded) ∧
      p.methods.map (·.types) = (["v", "i"] : List Text)) ∧
    ∃ image e, ofSlice (tableSlice 0x1080 0) none {} = .ok image ∧
      image.metadata = .returned (.error e) ∧ e.kind = .truncated := by
  refine ⟨?_, ?_⟩
  · obtain ⟨image, m, p, h, hm, hp, htypes⟩ := exists_of_protocols (tableSlice 0x104C 0x1008)
      (["v", "i"] : List Text) (by decide +kernel) (by decide +kernel)
    exact ⟨image, m, p, h, hm, hp, ((protocols_extended_as_a_whole h).1 m hm p hp).1, htypes⟩
  · have hwhole := ofSlice_eq_of_size_le
      (show (tableSlice 0x1080 0).size ≤ sliceSize {} none by decide +kernel)
    have hbeyond : ((ofContents (tableSlice 0x1080 0) (sliceSize {} none) 0).toOption.map
        fun image => ((image.dataSections "__objc_protolist").any fun s => s.encrypted = false ∧
          0 < (s.size / image.pointerSize.toUInt64).toNat ∧
          (image.slotPointer s.addr 0).toOption = some ⟨0x100C, []⟩,
        image.readsBeyond 0x100C, image.hasOversizedInfo)) = some (true, true, false) := by
      decide +kernel
    obtain ⟨image, h, hfields⟩ := Option.map_eq_some_iff.1 hbeyond
    simp only [Prod.mk.injEq] at hfields
    obtain ⟨hlisted, hread, hsmall⟩ := hfields
    obtain ⟨s, hs, hslot⟩ := List.any_eq_true.1 hlisted
    obtain ⟨hencrypted, hsize, hpointer⟩ := of_decide_eq_true hslot
    have hlists : image.ListsProtocol 0x100C :=
      ⟨by decide, s, hs, hencrypted, 0, hsize, Except.toOption_eq_some_iff.1 hpointer⟩
    obtain ⟨record, plain, e, hplain, htable, hread, hkind⟩ := exists_of_readsBeyond hread
    have hopened := hwhole.trans (Except.toOption_eq_some_iff.1 h)
    -- there is no image info that could crash the program
    obtain ⟨e', he', hkind'⟩ := ((protocols_extended_as_a_whole hopened).2 _ record plain e hlists
      hplain htable hread hkind).resolve_left (by simp [hsmall])
    exact ⟨image, e', hopened, he', hkind'⟩

end Image

end ObjcLens
