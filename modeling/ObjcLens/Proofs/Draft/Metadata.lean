import Mathlib
import ObjcLens.Proofs.Draft.Run

/-!
# What is drafted is read back

A run of drafting steps that overflows no slot gives a draft that can be written as a file. The
file is opened as an image, and the metadata of the image are the protocols, the listed classes and
the categories that were added, in order and with all their members. Nothing is skipped.

## Main results

* `Records.new`: an empty draft has the records of the empty log.
* `Records.metadata_eq`: the metadata of an image that shows the records of a log.
* `encode_metadata_of_runSteps`: a run of steps, written and read.
-/

namespace ObjcLens

open RecordReader

namespace DraftLog

/-- The steps of the log are plain, and the addresses in them were returned by steps of the log:
those of protocols by steps that added a protocol, those of classes, unless they are zero, by steps
that added a class. -/
structure IsSound (log : DraftLog) : Prop where
  plain : ∀ entry ∈ log, entry.1.IsPlain
  protocol_protocols : ∀ entry ∈ log.protocols, ∀ a ∈ entry.1.protocols,
    a ∈ log.protocols.map (·.2)
  class_protocols : ∀ entry ∈ log.classes, ∀ a ∈ entry.1.protocols, a ∈ log.protocols.map (·.2)
  category_protocols : ∀ entry ∈ log.categories, ∀ a ∈ entry.1.protocols,
    a ∈ log.protocols.map (·.2)
  class_superclass : ∀ entry ∈ log.classes,
    entry.1.superclass = 0 ∨ entry.1.superclass ∈ log.classes.map (·.2)
  category_class : ∀ entry ∈ log.categories,
    entry.1.classAddr = 0 ∨ entry.1.classAddr ∈ log.classes.map (·.2)

/-- The metadata of an image with the records of the log: everything that was added in order, but
for the classes that are not listed, and the image info that was added first. -/
def toMetadata (log : DraftLog) (code : UInt64) : Metadata where
  imageInfo := log.infoFlags.head?.map fun flags => ⟨0, flags⟩
  classes := log.listedClasses.map fun e => e.1.toClass log.names code e.2
  categories := log.categories.map fun e => e.1.toCategory log.names code e.2
  protocols := log.protocols.map fun e => e.1.toProtocol log.names code e.2
  skipped := []

/-- What is read as the image info: the flags that were added first, if there are any. -/
def info (log : DraftLog) : Except Error ImageInfo :=
  log.infoFlags.head?.elim (.error .noImageInfo) fun flags => .ok ⟨0, flags⟩

end DraftLog

section Names

variable {context : Context} {log : DraftLog}

/-- A protocol of the log has its name. -/
private theorem isProtocol_names (h : ReadsLog context log) {a : UInt64}
    (ha : a ∈ log.protocols.map (·.2)) : IsProtocol context a (log.names.ofProtocol a) := by
  obtain ⟨entry, hentry, rfl, hname⟩ := DraftLog.exists_nameAt_eq DraftProtocol.name ha
  have hfact := (h.protocols entry hentry).1
  rwa [← hname] at hfact

/-- The address of a class that was added is near the base of the image. -/
private theorem near_of_mem_classes (h : ReadsLog context log) {a : UInt64}
    (ha : a ∈ log.classes.map (·.2)) : context.Near a := by
  obtain ⟨entry, hentry, rfl⟩ := List.mem_map.1 ha
  exact (h.classes entry hentry).1

/-- The superclass of a class of the log is in the log as well. -/
private theorem near_superclass (h : ReadsLog context log) (hsound : log.IsSound)
    {entry : DraftClass × UInt64} (hentry : entry ∈ log.classes)
    (hne : entry.1.superclass ≠ 0) : context.Near entry.1.superclass :=
  near_of_mem_classes h ((hsound.class_superclass entry hentry).resolve_left hne)

/-- A class of the log has its name. -/
private theorem classNamed_names (h : ReadsLog context log) (hsound : log.IsSound) {a : UInt64}
    (ha : a ∈ log.classes.map (·.2)) : ClassNamed context a (log.names.ofClass a) := by
  obtain ⟨entry, hentry, rfl, hname⟩ := DraftLog.exists_nameAt_eq DraftClass.name ha
  have hfact := ((h.classes entry hentry).2 (near_superclass h hsound hentry)).1
  rwa [← hname] at hfact

end Names

namespace Draft

/-- The address of the code of every method. -/
def code (d : Draft) : UInt64 := d.base + 0x1000

namespace Records

variable {d : Draft} {log : DraftLog} {image : Image}

/-- An empty draft has the records of the empty log. -/
theorem new (cpu : CpuType) (sub : CpuSubtype) (order : ByteOrder) :
    Records { Draft.new cpu sub with order := order } [] := by
  have hsections : (Draft.new cpu sub).sections =
      layOut fun slot => if slot = 1 then [0xC0, 0x03, 0x5F, 0xD6] else [] := rfl
  have hstored : ({ Draft.new cpu sub with order := order } : Draft).stored = fun slot =>
      if slot = 1 then [0xC0, 0x03, 0x5F, 0xD6] else [] := by
    funext slot
    rw [stored_of_sections_eq (by exact hsections)]
    by_cases hslot : slot = 1
    · simp [hslot]
    · simp [hslot]
  refine ⟨⟨?_, fun slot => ?_, ?_, rfl, rfl, ?_⟩, ?_, ?_, ?_, ?_, fun _ context _ _ => ?_⟩
  · rw [hstored]
    exact hsections
  · rw [hstored]
    dsimp only
    split <;> decide
  · rw [hstored]
    rfl
  · intro entry hentry
    exact absurd hentry (List.not_mem_nil)
  · rw [hstored]
    rfl
  · rw [hstored]
    rfl
  · rw [hstored]
    rfl
  · rw [hstored]
    rfl
  · exact ⟨by simp [DraftLog.protocols], by simp [DraftLog.classes], by simp [DraftLog.categories]⟩

/-- The image info of a log is read as it was written. -/
private theorem imageInfo_eq_info (hd : d.Records log) (hshows : image.Shows d) :
    image.imageInfo = .returned log.info := hshows.imageInfo_eq hd.imageInfo_eq

/-- The context in which the metadata of an image are read shows the draft. -/
private theorem shows_context (hsound : log.IsSound)
    (hshows : image.Shows d) (rememberNames : Bool) :
    Context.Shows {
      image, rememberNames
      chained := image.chainedFixups
      categoryClassProperties := match log.info with
        | .ok info => info.flags.hasCategoryClassProperties
        | .error _ => false } d := by
  refine ⟨hshows, ?_, ?_⟩
  · change image.chainedFixups = _
    rw [Image.chainedFixups, hshows.fixupsRange?_eq]
  · rw [DraftLog.info]
    cases hflags : log.infoFlags with
    | nil => rfl
    | cons flags rest =>
      have hmem : flags ∈ log.infoFlags := hflags ▸ List.mem_cons_self
      obtain ⟨⟨step, addr⟩, hentry, hstep⟩ := List.mem_filterMap.1 hmem
      have hplain := hsound.plain _ hentry
      cases step <;> simp at hstep
      subst hstep
      exact hplain

/-- All records of the log are read in a context that shows the draft. -/
private theorem reads_metadata (hd : d.Records log) (hsound : log.IsSound) {context : Context}
    (hcontext : context.Shows d) :
    Reads context (readMetadata log.info) (log.toMetadata d.code) := by
  have hlog := hd.tells _ _ (Draft.Extends.refl d) hcontext
  have hcode : d.code = context.code := by
    rw [code, Context.code, hcontext.base_eq]
  have hinfo : log.info.toOption = log.infoFlags.head?.map fun flags => ⟨0, flags⟩ := by
    rw [DraftLog.info]
    cases log.infoFlags <;> rfl
  rw [hcode, DraftLog.toMetadata, ← hinfo]
  -- each of the three lists is read entry by entry; what an entry names is found in the log
  refine Reads.readMetadata hcontext hd.classList_eq hd.categoryList_eq hd.protocolList_eq ?_ ?_ ?_
    ?_
  · rw [List.forall₂_map_left_iff, List.forall₂_map_right_iff]
    refine List.forall₂_same.2 fun entry hentry => ?_
    have hmem := (List.mem_filter.1 hentry).1
    obtain ⟨hnear, hfact⟩ := hlog.classes entry hmem
    refine ⟨hnear, (hfact (near_superclass hlog hsound hmem)).2 log.names ?_ fun a ha => ?_⟩
    · intro hne
      exact classNamed_names hlog hsound ((hsound.class_superclass entry hmem).resolve_left hne)
    · exact isProtocol_names hlog (hsound.class_protocols entry hmem a ha)
  · rw [List.forall₂_map_left_iff, List.forall₂_map_right_iff]
    refine List.forall₂_same.2 fun entry hentry => ?_
    obtain ⟨hnear, hfact⟩ := hlog.categories entry hentry
    refine ⟨hnear, hfact log.names ?_ fun a ha => ?_⟩
    · intro hne
      have hclass := (hsound.category_class entry hentry).resolve_left hne
      exact ⟨near_of_mem_classes hlog hclass, classNamed_names hlog hsound hclass⟩
    · exact isProtocol_names hlog (hsound.category_protocols entry hentry a ha)
  · rw [List.forall₂_map_left_iff, List.forall₂_map_right_iff]
    refine List.forall₂_same.2 fun entry hentry => ?_
    obtain ⟨hprotocol, hfact⟩ := hlog.protocols entry hentry
    refine ⟨hprotocol.1, hfact log.names fun a ha => ?_⟩
    exact isProtocol_names hlog (hsound.protocol_protocols entry hentry a ha)
  · rw [DraftLog.info]
    cases log.infoFlags with
    | nil => exact .inl rfl
    | cons flags rest => exact .inr ⟨_, rfl⟩

/-- A list without a section is empty. -/
private theorem addrs_eq_nil (hshows : image.Shows d) {name : Text}
    (hnone : image.dataSections name = []) {t : DraftSection} (ht : Image.listsNamed name = [t])
    {slot : Nat} (hslot : t.slot = slot) {addrs : List UInt64}
    (hstored : d.stored slot = d.pointers addrs) : addrs = [] := by
  rw [hshows.dataSections_eq ht, hslot] at hnone
  have hempty : d.stored slot = [] := by
    by_contra hne
    rw [if_neg hne] at hnone
    simp at hnone
  -- a list is as long as its addresses times the pointer size, so only no address leaves it empty
  have hlength : d.pointerSize * addrs.length = 0 := by
    rw [← length_pointers, ← hstored, hempty, List.length_nil]
  have hpos : 0 < d.pointerSize := by
    rw [pointerSize]
    split <;> decide
  rcases Nat.mul_eq_zero.1 hlength with h | h
  · omega
  · exact List.length_eq_zero_iff.1 h

/-- An image without lists and without an image info has no records. -/
private theorem toMetadata_eq_empty (hd : d.Records log) (hshows : image.Shows d)
    (hnone : image.hasMetadata = false) : log.toMetadata d.code = {} := by
  obtain ⟨hinfoNone, hclassNone, hcategoryNone, hprotocolNone⟩ :
      image.dataSections "__objc_imageinfo" = [] ∧ image.dataSections "__objc_classlist" = [] ∧
        image.dataSections "__objc_catlist" = [] ∧
        image.dataSections "__objc_protolist" = [] := by
    have hlists := (Bool.or_eq_false_iff.1 hnone).1
    simpa using hlists
  -- with no list section in the image, each list of the draft is empty
  have hclasses := addrs_eq_nil hshows hclassNone rfl rfl hd.classList_eq
  have hcategories := addrs_eq_nil hshows hcategoryNone rfl rfl hd.categoryList_eq
  have hprotocols := addrs_eq_nil hshows hprotocolNone rfl rfl hd.protocolList_eq
  rw [List.map_eq_nil_iff] at hclasses hcategories hprotocols
  have hinfo := imageInfo_eq_info hd hshows
  rw [Image.imageInfo, hinfoNone] at hinfo
  have hflags : log.infoFlags = [] := by
    cases hlist : log.infoFlags with
    | nil => rfl
    | cons flags rest =>
      rw [DraftLog.info, hlist] at hinfo
      simp at hinfo
  rw [DraftLog.toMetadata, hclasses, hcategories, hprotocols, hflags]
  rfl

/-- The metadata of an image that shows the records of a log. -/
theorem metadata_eq (hd : d.Records log) (hsound : log.IsSound) (hshows : image.Shows d) :
    image.metadata = .returned (.ok (log.toMetadata d.code)) := by
  cases hmetadata : image.hasMetadata with
  | true =>
    have hreads := reads_metadata hd hsound (shows_context hsound hshows true)
    obtain ⟨after, hafter, -⟩ := hreads {} ⟨by simp, by simp⟩
    rw [Image.metadata, Image.extract, Image.extraction, hmetadata, imageInfo_eq_info hd hshows]
    refine (congrArg Image.Extraction.result (Dialogue.run_bind _ _)).trans ?_
    exact congrArg (Attempt.returned ·.1) hafter
  | false =>
    rw [Image.metadata, Image.extract, Image.extraction, hmetadata,
      toMetadata_eq_empty hd hshows hmetadata]
    rfl

end Records

/-- What is drafted is read back: a run that overflows no slot gives a file, the file is opened, and
its metadata are the protocols, the listed classes and the categories of the run in order. The
addresses of superclasses, classes and protocols may be those that any step of the run returned. -/
theorem encode_metadata_of_runSteps {cpu : CpuType} {sub : CpuSubtype} {order : ByteOrder}
    {steps : List DraftStep} {log : DraftLog} {d : Draft}
    (hrun : Drafting.runSteps steps { Draft.new cpu sub with order := order } = .ok (log, d))
    (hsound : log.IsSound) :
    log.map (·.1) = steps ∧ ∃ bytes image, d.encode = .ok bytes ∧
      Image.ofSlice bytes.toArray (some bytes.length) {} = .ok image ∧
      image.metadata = .returned (.ok (log.toMetadata d.code)) := by
  have hsteps := Drafting.map_fst_of_runSteps hrun
  have hplain : ∀ step ∈ steps, step.IsPlain := by
    rw [← hsteps]
    exact List.forall_mem_map.2 hsound.plain
  have hrecords := (Records.new cpu sub order).runSteps hplain hrun
  rw [List.nil_append] at hrecords
  obtain ⟨bytes, image, hencode, hopen, hshows⟩ := exists_shows hrecords.regular
  exact ⟨hsteps, bytes, image, hencode, hopen, hrecords.metadata_eq hsound hshows⟩

/-- An image info, a protocol, two classes with methods of different layouts, and a category. The
addresses are those that the steps return in the image of a 64-bit processor. -/
def sampleSteps : List DraftStep :=
  [ .addImageInfo 0,
    .addProtocol {
      name := "Greeter"
      instanceMethods := [⟨"greet:", "v24@0:8@16"⟩]
      properties := [⟨"name", "T@,C"⟩]
      extendedTypes := ["v24@0:8@\"NSString\"16"] },
    .addClass {
      name := "Base"
      isRoot := true
      layout := .directDistances
      instanceMethods := [⟨"count", "i16@0:8"⟩]
      ivars := [⟨"_count", "i", 8, 4⟩] },
    .addClass {
      name := "Derived"
      superclass := 0x10000A088
      layout := .distances
      instanceMethods := [⟨"greet:", "v24@0:8@16"⟩]
      protocols := [0x10000A000] },
    .addCategory { name := "Extras", classAddr := 0x10000A0D8 } ]

/-- The addresses that the sample steps return. -/
def sampleAddrs : List UInt64 := [0, 0x10000A000, 0x10000A088, 0x10000A0D8, 0x1000091D0]

/-- The sample names only protocols and classes that were added before. -/
private theorem isSound_sample : DraftLog.IsSound (sampleSteps.zip sampleAddrs) where
  plain := by
    simp only [sampleSteps, sampleAddrs, List.zip_cons_cons, List.zip_nil_left,
      List.forall_mem_cons]
    exact ⟨by decide, by decide, by decide, by decide, by decide, List.forall_mem_nil _⟩
  protocol_protocols := by simp [sampleSteps, sampleAddrs, DraftLog.protocols]
  class_protocols := by simp [sampleSteps, sampleAddrs, DraftLog.protocols, DraftLog.classes]
  category_protocols := by
    simp [sampleSteps, sampleAddrs, DraftLog.protocols, DraftLog.categories]
  class_superclass := by simp [sampleSteps, sampleAddrs, DraftLog.classes]
  category_class := by simp [sampleSteps, sampleAddrs, DraftLog.classes, DraftLog.categories]

set_option maxRecDepth 20000 in
/-- The addresses that the steps of the sample return. -/
private theorem addrs_of_sampleSteps :
    ((Drafting.runSteps sampleSteps { Draft.new .arm64 0 with order := .big }).map
      fun result => result.1.map (·.2)) = .ok sampleAddrs := by
  cbv

/-- The sample is written with the most significant byte first and read back. -/
theorem encode_metadata_sampleSteps : ∃ log d bytes image metadata,
    Drafting.runSteps sampleSteps { Draft.new .arm64 0 with order := .big } = .ok (log, d) ∧
      log.IsSound ∧ d.encode = .ok bytes ∧
      Image.ofSlice bytes.toArray (some bytes.length) {} = .ok image ∧
      image.metadata = .returned (.ok metadata) ∧
      metadata.classes.map (·.superclass) = [[], Text.ofString "Base"] ∧
      metadata.classes.map (·.protocols) = [[], [Text.ofString "Greeter"]] := by
  have haddrs := addrs_of_sampleSteps
  cases hrun : Drafting.runSteps sampleSteps { Draft.new .arm64 0 with order := .big } with
  | error e =>
    rw [hrun] at haddrs
    cases haddrs
  | ok result =>
    obtain ⟨log, d⟩ := result
    rw [hrun] at haddrs
    -- the run gives the addresses computed above, so its log is known without evaluating the draft
    have hlog : log = sampleSteps.zip sampleAddrs :=
      List.zip_of_prod (Drafting.map_fst_of_runSteps hrun) (Except.ok.inj haddrs)
    have hsound : log.IsSound := hlog ▸ isSound_sample
    obtain ⟨-, bytes, image, hencode, hopen, hmetadata⟩ := encode_metadata_of_runSteps hrun hsound
    refine ⟨log, d, bytes, image, _, rfl, hsound, hencode, hopen, hmetadata, ?_, ?_⟩
    · rw [hlog]
      rfl
    · rw [hlog]
      rfl

end Draft

end ObjcLens
