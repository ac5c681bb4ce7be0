import Mathlib
import ObjcLens.Proofs.Image.Secrecy
import ObjcLens.Proofs.Record.Compose

/-!
# Encrypted bytes do not reach the metadata

A reader of records sees the image only through its guarded reads. `Ignores` says that a reader
does the same when bytes of encrypted ranges change: it gives the same result or error and keeps
the same names, requests and log. The property passes from the steps of a reader to the whole, so
that it holds for the metadata of an image.

## Main results

* `Ignores.readMetadata`: the metadata do not depend on encrypted bytes.
* `ofSlice_sameResults_of_differOnlyEncrypted`: two slices that differ only in encrypted bytes
  cannot be told apart.
-/

namespace ObjcLens

/-- The context on an image with other bytes behind it. -/
def Context.withContents (context : Context) (contents : Array UInt8) : Context :=
  { context with image := context.image.withContents contents }

namespace RecordReader

/-- The reader does the same on an image with other bytes behind it. -/
def Ignores (context : Context) (contents : Array UInt8) {α : Type} (m : RecordReader α) : Prop :=
  m (context.withContents contents) = m context

namespace Ignores

section Combinators

variable {context : Context} {contents : Array UInt8} {α β : Type}

theorem pure (a : α) : Ignores context contents (pure a) := rfl

theorem throw (error : Error) : Ignores context contents (throw error : RecordReader α) := rfl

theorem get : Ignores context contents get := rfl

theorem modify (f : Progress → Progress) : Ignores context contents (modify f) := rfl

/-- Readers that ignore the bytes can be run one after the other. -/
theorem bind {m : RecordReader α} {f : α → RecordReader β} (hm : Ignores context contents m)
    (hf : ∀ a, Ignores context contents (f a)) : Ignores context contents (m >>= f) := by
  change (m _ >>= fun a => f a _) = (m context >>= fun a => f a context)
  rw [show m (context.withContents contents) = m context from hm]
  congr 1
  funext a
  exact hf a

/-- A reader may look at the context, if what it does then is the same. -/
theorem read_bind {f : Context → RecordReader β}
    (hsame : f (context.withContents contents) = f context)
    (hf : Ignores context contents (f context)) : Ignores context contents (read >>= f) := by
  change f (context.withContents contents) (context.withContents contents) = f context context
  rw [hsame]
  exact hf

/-- Errors are caught in the same way. -/
theorem tryCatch {m : RecordReader α} {f : Error → RecordReader α}
    (hm : Ignores context contents m) (hf : ∀ e, Ignores context contents (f e)) :
    Ignores context contents (tryCatch m f) := by
  change ExceptT.tryCatch (m _) (fun e => f e _) = ExceptT.tryCatch (m context) fun e => f e context
  rw [show m (context.withContents contents) = m context from hm]
  congr 1
  funext e
  exact hf e

theorem ofExcept (result : Except Error α) : Ignores context contents (ofExcept result) := by
  cases result <;> rfl

end Combinators

section Readers

variable {context : Context} {contents : Array UInt8}

theorem pointerSize : Ignores context contents pointerSize := rfl

theorem note (entry : LogEntry) : Ignores context contents (note entry) := rfl

theorem decodeType (encoding : Text) : Ignores context contents (decodeType encoding) := rfl

theorem decodeMethod (encoding : Text) : Ignores context contents (decodeMethod encoding) := rfl

/-- The range is checked against the sections, not against their bytes. -/
theorem checkRange (addr size : UInt64) : Ignores context contents (checkRange addr size) := by
  rw [checkRange_eq]
  exact read_bind rfl (ofExcept _)

variable (h : context.image.Hides contents)
include h

theorem pointerAt (addr : UInt64) : Ignores context contents (pointerAt addr) := by
  refine read_bind ?_ ?_
  · simp only [Context.withContents, Image.pointerWith_withContents h]
    rfl
  · refine (ofExcept _).bind fun pointer => ?_
    split
    · split
      · exact (note _).bind fun _ => pure _
      · exact pure _
    · exact pure _

theorem word32At (addr : UInt64) : Ignores context contents (word32At addr) := by
  refine read_bind ?_ ((ofExcept _).bind fun _ => pure _)
  simp only [Context.withContents, Image.readAddr_withContents h, Image.withContents_order]

theorem text (addr : UInt64) : Ignores context contents (text addr) := by
  unfold RecordReader.text
  split
  · exact pure _
  · refine read_bind ?_ (ofExcept _)
    simp only [Context.withContents, Image.cstring_withContents h]

theorem smallMethod (isClassMethod direct : Bool) (addr : UInt64) :
    Ignores context contents (smallMethod isClassMethod direct addr) := by
  refine read_bind ?_ ((ofExcept _).bind fun bytes => ?_)
  · simp only [Context.withContents, Image.readAddr_withContents h, Image.withContents_order]
    rfl
  · dsimp only
    split
    · exact (pure _).bind fun _ => (text h _).bind fun _ => (text h _).bind fun _ =>
        (decodeMethod _).bind fun _ => pure _
    · exact (pointerAt h _).bind fun _ => (pure _).bind fun _ => (text h _).bind fun _ =>
        (text h _).bind fun _ => (decodeMethod _).bind fun _ => pure _

/-- The steps that leave names alone ignore the bytes. -/
theorem compositional :
    Compositional (fun {α} (m : RecordReader α) => Ignores context contents m) where
  pure := pure
  throw := throw
  bind := bind
  tryCatch := tryCatch
  read_bind hsame hf := read_bind (hsame _ _ rfl) (hf context)
  note := note
  decodeType := decodeType
  decodeMethod := decodeMethod
  pointerSize := pointerSize
  pointerAt := pointerAt h
  word32At := word32At h
  checkRange := checkRange
  text := text h
  smallMethod := smallMethod h

theorem className (addr : UInt64) : Ignores context contents (className addr) := by
  have hsteps := compositional h
  refine get.bind fun _ => read_bind rfl ?_
  split
  · exact pure _
  · exact (hsteps.classRecord _).bind fun _ => (hsteps.dataOf _).bind fun _ =>
      (text h _).bind fun _ => (modify _).bind fun _ => pure _

theorem protocolName (addr : UInt64) : Ignores context contents (protocolName addr) := by
  refine get.bind fun _ => read_bind rfl ?_
  split
  · exact pure _
  · exact pointerSize.bind fun _ => (pointerAt h _).bind fun _ => (text h _).bind fun _ =>
      (modify _).bind fun _ => pure _

/-- All readers of records ignore the bytes. -/
theorem compositionalWithNames :
    CompositionalWithNames (fun {α} (m : RecordReader α) => Ignores context contents m) where
  toCompositional := compositional h
  className := className h
  protocolName := protocolName h
  keepClassName_bind addr hf := by
    have hsteps := compositional h
    exact (hsteps.classRecord addr).bind fun _ =>
      (hsteps.annotating (hsteps.dataOf _) _ _).bind fun _ =>
      (hsteps.annotating (text h _) _ _).bind fun _ => (modify _).bind fun _ => hf _ _ _
  keepProtocolName_bind addr hf := by
    have hsteps := compositional h
    exact (hsteps.protocolRecord addr).bind fun _ =>
      (hsteps.annotating (text h _) _ _).bind fun _ => (modify _).bind fun _ => hf _ _

/-- The metadata are read alike. -/
theorem readMetadata (info : Except Error ImageInfo) :
    Ignores context contents (readMetadata info) := by
  have hall := compositionalWithNames h
  refine read_bind rfl ((hall.listSections hall.readProtocol _ _).bind fun _ => ?_)
  exact (hall.listSections hall.readClass _ _).bind fun _ =>
    (hall.listSections hall.readCategory _ _).bind fun _ => (note _).bind fun _ => pure _

end Readers

end Ignores

end RecordReader

namespace Image

section Metadata

variable {image : Image} {contents : Array UInt8}

/-- The image info record is the same. -/
theorem imageInfo_withContents (h : image.Hides contents) :
    (image.withContents contents).imageInfo = image.imageInfo := by
  have hsections : (image.withContents contents).dataSections "__objc_imageinfo" =
      image.dataSections "__objc_imageinfo" := rfl
  unfold imageInfo
  rw [hsections]
  cases hfound : image.dataSections "__objc_imageinfo" with
  | nil => rfl
  | cons s rest =>
    -- the marks are the same, so the same section is found, and its data is the same
    have hs : s ∈ image.sections := by
      have hmem : s ∈ image.dataSections "__objc_imageinfo" := by
        rw [hfound]
        exact List.mem_cons_self
      exact (List.mem_filter.1 hmem).1
    simp only [sectionData_withContents h hs]
    rfl

/-- The metadata are the same, with the requests and the log of their reading. -/
theorem extract_withContents (h : image.Hides contents) (rememberNames : Bool) :
    (image.withContents contents).extract rememberNames = image.extract rememberNames := by
  unfold extract extraction
  rw [imageInfo_withContents h, chainedFixups_withContents h, apply_ite Dialogue.run,
    apply_ite Dialogue.run]
  refine if_congr Iff.rfl rfl ?_
  cases image.imageInfo with
  | crashed => rfl
  | returned info =>
    let context (categoryClassProperties : Bool) : Context := {
      image, rememberNames, categoryClassProperties
      chained := image.chainedFixups }
    have hread (flag : Bool) :
        RecordReader.readMetadata info ((context flag).withContents contents) =
          RecordReader.readMetadata info (context flag) :=
      RecordReader.Ignores.readMetadata h info
    let legacy : List LogEntry := if image.hasLegacyMetadata then
        [⟨.warn, "legacy __OBJC runtime metadata is not supported", [("arch", image.arch.name)]⟩]
      else []
    let finish (read : Except Error Metadata × Progress) : Extraction := {
      result := .returned read.1
      requests := read.2.requests.reverse
      log := legacy ++ read.2.log.reverse }
    exact congrArg (fun run : StateT Progress Dialogue (Except Error Metadata) =>
      (run {} >>= fun read => pure (finish read)).run) (hread _)

end Metadata

/-- Two sources of one length that have the same header and load commands, and differ only inside
encrypted ranges of the slice that is opened. -/
structure DifferOnlyEncrypted (a b : Array UInt8) (told : Option Nat) (bounds : SliceBounds) :
    Prop where
  size_eq : a.size = b.size
  head_eq : ∀ i < headLength (a.extract 0 (sliceSize bounds told)), a[i]? = b[i]?
  covered : ∀ image, ofSlice a told bounds = .ok image → ∀ i, a[i]? ≠ b[i]? →
    ∃ r ∈ encryptionRanges image.loads, r.Covers i

/-- Two images that no operation tells apart. The raw bytes of segments are left out. -/
structure SameResults (a b : Image) : Prop where
  header : a.header = b.header
  order : a.order = b.order
  loads : a.loads = b.loads
  sections : a.sections = b.sections
  size : a.size = b.size
  offset : a.offset = b.offset
  tryRead : ∀ offset count, a.tryRead offset count = b.tryRead offset count
  word32At : ∀ offset, a.word32At offset = b.word32At offset
  word64At : ∀ offset, a.word64At offset = b.word64At offset
  wordAt : ∀ offset, a.wordAt offset = b.wordAt offset
  readAddr : ∀ addr count, a.readAddr addr count = b.readAddr addr count
  cstring : ∀ addr, a.cstring addr = b.cstring addr
  pointerAt : ∀ addr, a.pointerAt addr = b.pointerAt addr
  chainedFixups : a.chainedFixups = b.chainedFixups
  sectionData : ∀ s ∈ a.sections, a.sectionData s = b.sectionData s
  extract : ∀ rememberNames, a.extract rememberNames = b.extract rememberNames
  metadata : a.metadata = b.metadata

/-- Other bytes in encrypted ranges are not noticed. -/
private theorem Hides.sameResults {image : Image} {contents : Array UInt8}
    (h : image.Hides contents) : SameResults image (image.withContents contents) where
  header := rfl
  order := rfl
  loads := rfl
  sections := rfl
  size := rfl
  offset := rfl
  tryRead offset count := (tryRead_withContents h offset count).symm
  word32At offset := (word32At_withContents h offset).symm
  word64At offset := (word64At_withContents h offset).symm
  wordAt offset := (wordAt_withContents h offset).symm
  readAddr addr count := (readAddr_withContents h addr count).symm
  cstring addr := (cstring_withContents h addr).symm
  pointerAt addr := (pointerAt_withContents h addr).symm
  chainedFixups := (chainedFixups_withContents h).symm
  sectionData _ hs := (sectionData_withContents h hs).symm
  extract rememberNames := (extract_withContents h rememberNames).symm
  metadata := congrArg Extraction.result (extract_withContents h true).symm

/-- The bytes of the second slice may be put behind the image in the first. -/
private theorem DifferOnlyEncrypted.hides {a b : Array UInt8} {told : Option Nat}
    {bounds : SliceBounds} (hsize : sliceSize bounds told < 2 ^ 63)
    (h : DifferOnlyEncrypted a b told bounds) {image : Image}
    (hopen : ofSlice a told bounds = .ok image) :
    image.Hides (b.extract 0 (sliceSize bounds told)) := by
  have hcovered := h.covered image hopen
  obtain ⟨himage, hcontents, hmarked⟩ := ofSlice_eq_ok hopen
  rw [himage] at hcontents
  refine ⟨by rwa [himage], hmarked, ?_, ?_⟩
  · rw [hcontents, Array.size_extract, Array.size_extract, h.size_eq]
  -- a byte that differs would be in an active range
  · intro i hi
    have hsame : a[i]? = b[i]? := by
      by_contra hne
      obtain ⟨r, hr, hcovers⟩ := hcovered i hne
      exact hi r hr hcovers
    simp only [hcontents, Array.getElem?_extract, h.size_eq, Nat.zero_add, hsame]

/-- Encrypted bytes never influence results: two slices that have the same header and load
commands, and differ only inside active encryption ranges, are refused with the same error or
opened to images that no operation tells apart. -/
theorem ofSlice_sameResults_of_differOnlyEncrypted (a b : Array UInt8) (told : Option Nat)
    (bounds : SliceBounds) (hsize : sliceSize bounds told < 2 ^ 63)
    (h : DifferOnlyEncrypted a b told bounds) :
    (∃ error, ofSlice a told bounds = .error error ∧ ofSlice b told bounds = .error error) ∨
      ∃ imageA imageB, ofSlice a told bounds = .ok imageA ∧ ofSlice b told bounds = .ok imageB ∧
        SameResults imageA imageB := by
  have hsize' : (a.extract 0 (sliceSize bounds told)).size =
      (b.extract 0 (sliceSize bounds told)).size := by
    rw [Array.size_extract, Array.size_extract, h.size_eq]
  have hhead : ∀ i < headLength (a.extract 0 (sliceSize bounds told)),
      (a.extract 0 (sliceSize bounds told))[i]? = (b.extract 0 (sliceSize bounds told))[i]? := by
    intro i hi
    simp only [Array.getElem?_extract, h.size_eq, Nat.zero_add, h.head_eq i hi]
  -- the head decides whether the slice opens, and the heads are the same
  have hopen := ofContents_eq_map_withContents hsize' hhead (sliceSize bounds told) bounds.offset
  rw [← ofSlice_eq_ofContents, ← ofSlice_eq_ofContents] at hopen
  rw [hopen]
  cases hopened : ofSlice a told bounds with
  | error error => exact Or.inl ⟨error, rfl, rfl⟩
  | ok image => exact Or.inr ⟨image, _, rfl, rfl, (h.hides hsize hopened).sameResults⟩

/-- A slice with one encryption command, four encrypted bytes and four others. -/
def sealedSlice (secret : Text) : Array UInt8 :=
  ([0xFEEDFACE, 7, 3, 6, 1, 20, 0, 0x21, 20, 48, 4, 1].flatMap ByteOrder.big.bytes32 ++
    (secret ++ [9, 9, 9, 9])).toArray

/-- The two slices differ in the four bytes of their encryption range alone. -/
private theorem differOnlyEncrypted_sealedSlice :
    DifferOnlyEncrypted (sealedSlice [1, 2, 3, 4]) (sealedSlice [5, 6, 7, 8]) (some 56) {} where
  size_eq := by decide
  head_eq := by decide +kernel
  covered image hopen i hne := by
    have hranges : (ofSlice (sealedSlice [1, 2, 3, 4]) (some 56) {}).toOption.map
        (encryptionRanges ·.loads) = some [⟨48, 4, 1⟩] := by decide +kernel
    rw [hopen] at hranges
    -- both slices are 56 bytes long, so a difference is below that
    have hinside : ∀ i < 56, (sealedSlice [1, 2, 3, 4])[i]? ≠ (sealedSlice [5, 6, 7, 8])[i]? →
        48 ≤ i ∧ i < 52 := by decide +kernel
    have hi : i < 56 := by
      by_contra hlarge
      have hsize (secret : Text) (hsecret : secret.length = 4) :
          (sealedSlice secret)[i]? = none := by
        rw [Array.getElem?_eq_none]
        simp [sealedSlice, ByteOrder.bytes32, hsecret]
        omega
      exact hne ((hsize _ rfl).trans (hsize _ rfl).symm)
    exact ⟨⟨48, 4, 1⟩, by simp [Option.some.inj hranges], hinside i hi hne⟩

/-- Two slices with different encrypted bytes are not told apart. -/
theorem sealedSlice_sameResults :
    (sliceSize {} (some 56) < 2 ^ 63 ∧
      DifferOnlyEncrypted (sealedSlice [1, 2, 3, 4]) (sealedSlice [5, 6, 7, 8]) (some 56) {} ∧
      sealedSlice [1, 2, 3, 4] ≠ sealedSlice [5, 6, 7, 8]) ∧
    ((∃ error, ofSlice (sealedSlice [1, 2, 3, 4]) (some 56) {} = .error error ∧
        ofSlice (sealedSlice [5, 6, 7, 8]) (some 56) {} = .error error) ∨
      ∃ imageA imageB, ofSlice (sealedSlice [1, 2, 3, 4]) (some 56) {} = .ok imageA ∧
        ofSlice (sealedSlice [5, 6, 7, 8]) (some 56) {} = .ok imageB ∧
        SameResults imageA imageB) :=
  ⟨⟨by decide, differOnlyEncrypted_sealedSlice, by decide +kernel⟩,
    ofSlice_sameResults_of_differOnlyEncrypted _ _ _ _ (by decide)
      differOnlyEncrypted_sealedSlice⟩

end Image

end ObjcLens
