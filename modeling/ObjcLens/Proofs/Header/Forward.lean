import Mathlib
import ObjcLens.Proofs.Header.Declaration
import ObjcLens.Proofs.ObjcType.Canonical

/-!
# Forward declarations

A header declares in front what its declarations refer to and the model does not define. The
references are collected member by member from all parts of their types. In the end the names stand
in order and each of them once, in a line for classes and a line for protocols.

## Main results

* `ObjcType.mem_references_iff`: the names inside a type are those of the objects in it.
* `Block.ofClass_mem_references_iff`, `Block.ofProtocol_mem_references_iff`: what an entity and its
  members refer to.
* `Header.listing_addNames`: what is collected are the names that are unknown, each of them once.
* `Header.forwards_of_walkIn`: the lines in front of a header after a walk.
-/

namespace ObjcLens

/-- The reference is to a class or a protocol, and not to an aggregate or one of its members. -/
def Reference.isToEntity : Reference → Bool
  | .ofClass _ | .ofProtocol _ => true
  | .ofTag _ | .ofMember _ => false

namespace ObjcType

/-- A type occurs in another one: it is that type, or it occurs in what a pointer points to, in the
elements of an array, in a member of an aggregate, or in the result or a parameter of a block. -/
inductive OccursIn (s : ObjcType) : ObjcType → Prop
  /-- The type is the other one. -/
  | here : OccursIn s s
  /-- The type occurs in a part of the other one. -/
  | inside {t u : ObjcType} (hu : u ∈ t.parts) (h : OccursIn s u) : OccursIn s t

/-- The class and the protocols that an object names. Other types name none themselves. -/
def objectReferences : ObjcType → List Reference
  | .object _ name protocols => .ofClass name :: protocols.map .ofProtocol
  | _ => []

/-- An object type refers to its class. -/
theorem ofClass_mem_objectReferences_iff (s : ObjcType) (name : Text) :
    .ofClass name ∈ s.objectReferences ↔ ∃ quals protocols, s = .object quals name protocols := by
  cases s <;> simp [objectReferences, eq_comm]

/-- An object type refers to its protocols. -/
theorem ofProtocol_mem_objectReferences_iff (s : ObjcType) (name : Text) :
    .ofProtocol name ∈ s.objectReferences ↔
      ∃ quals className protocols, s = .object quals className protocols ∧ name ∈ protocols := by
  cases s <;> simp [objectReferences]

section Collect

variable {r : Reference} (hr : r.isToEntity = true)
include hr

/-- The references of members are those of their types. -/
private theorem mem_memberReferences_iff (members : List (Member ObjcType)) :
    r ∈ memberReferences members ↔ ∃ m ∈ members, r ∈ m.type.references := by
  induction members with
  | nil => simp [memberReferences]
  | cons m rest ih =>
    have hne : r ≠ .ofMember m.name := by
      rintro rfl
      cases hr
    simp [memberReferences, hne, ih]

omit hr in
/-- The references of several types are those of each. -/
private theorem mem_allReferences_iff (types : List ObjcType) :
    r ∈ allReferences types ↔ ∃ t ∈ types, r ∈ t.references := by
  induction types with
  | nil => simp [allReferences]
  | cons t rest ih => simp [allReferences, ih]

/-- A type names what it names itself and what its parts name. -/
theorem mem_references_iff_parts (t : ObjcType) :
    r ∈ t.references ↔ r ∈ t.objectReferences ∨ ∃ u ∈ t.parts, r ∈ u.references := by
  have hne (name : Text) : r ≠ .ofTag name := by
    rintro rfl
    cases hr
  cases t with
  | pointer quals elem | array quals length elem => simp [references, objectReferences, parts]
  | tag quals kind name => simp [references, objectReferences, parts, hne]
  | aggregate quals kind name members =>
    simp [references, objectReferences, parts, hne, mem_memberReferences_iff hr]
  | signature quals result params =>
    simp [references, objectReferences, parts, mem_allReferences_iff]
  | object quals name protocols => simp [references, objectReferences, parts]
  | unknown | primitive | bitfield | function | block | selector | classObject =>
    simp [references, objectReferences, parts]

/-- The classes and protocols inside a type are those that the objects in it name. -/
theorem mem_references_iff (t : ObjcType) :
    r ∈ t.references ↔ ∃ s, OccursIn s t ∧ r ∈ s.objectReferences := by
  induction t using induction_parts with
  | node t ih =>
    rw [mem_references_iff_parts hr]
    constructor
    -- a reference is made at the top of the type or inside one of its parts
    · rintro (hown | ⟨u, hu, hmem⟩)
      · exact ⟨t, .here, hown⟩
      · obtain ⟨s, hs, hown⟩ := (ih u hu).1 hmem
        exact ⟨s, .inside hu hs, hown⟩
    · rintro ⟨s, hs, hown⟩
      cases hs with
      | here => exact .inl hown
      | inside hu hs => exact .inr ⟨_, hu, (ih _ hu).2 ⟨s, hs, hown⟩⟩

end Collect

/-- A class is referred to where an object type with its name occurs, at any depth. -/
theorem ofClass_mem_references_iff (t : ObjcType) (name : Text) :
    .ofClass name ∈ t.references ↔
      ∃ quals protocols, OccursIn (.object quals name protocols) t := by
  rw [mem_references_iff rfl]
  simp only [ofClass_mem_objectReferences_iff]
  constructor
  · rintro ⟨s, hs, quals, protocols, rfl⟩
    exact ⟨quals, protocols, hs⟩
  · rintro ⟨quals, protocols, hs⟩
    exact ⟨_, hs, quals, protocols, rfl⟩

theorem ofProtocol_mem_references_iff (t : ObjcType) (name : Text) :
    .ofProtocol name ∈ t.references ↔
      ∃ quals className protocols,
        OccursIn (.object quals className protocols) t ∧ name ∈ protocols := by
  rw [mem_references_iff rfl]
  simp only [ofProtocol_mem_objectReferences_iff]
  constructor
  · rintro ⟨s, hs, quals, className, protocols, rfl, hname⟩
    exact ⟨quals, className, protocols, hs, hname⟩
  · rintro ⟨quals, className, protocols, hs, hname⟩
    exact ⟨_, hs, quals, className, protocols, rfl, hname⟩

end ObjcType

/-- The types of a member, those of a hidden method apart. -/
def Event.types (style : HeaderStyle) : Event → List ObjcType
  | .ivar v => v.type.toList
  | .method m _ =>
    if style.hides m then []
    else m.type.toList.flatMap fun t => t.result :: t.params.map (·.type)
  | .property p _ => p.type.toList
  | _ => []

namespace Block

/-- The superclass of a class, or the class of a category. -/
def target? : Block → Option Text
  | .ofProtocol _ => none
  | .ofClass c => some c.superclass
  | .ofCategory k => some k.className

/-- The protocols that an entity adopts. -/
def adopted : Block → List Text
  | .ofProtocol p => p.protocols
  | .ofClass c => c.protocols
  | .ofCategory k => k.protocols

/-- A class is the superclass or the target of an entity, or the type of a member that is not hidden
has an object of it. -/
def NamesClass (style : HeaderStyle) (b : Block) (name : Text) : Prop :=
  b.target? = some name ∨
    ∃ e ∈ b.members, ∃ t ∈ e.types style, ∃ quals protocols,
      ObjcType.OccursIn (.object quals name protocols) t

/-- A protocol is adopted by an entity, or the type of a member that is not hidden has an object
that adopts it. -/
def NamesProtocol (style : HeaderStyle) (b : Block) (name : Text) : Prop :=
  name ∈ b.adopted ∨
    ∃ e ∈ b.members, ∃ t ∈ e.types style, ∃ quals className protocols,
      ObjcType.OccursIn (.object quals className protocols) t ∧ name ∈ protocols

/-- A member refers to what its types name. -/
theorem mem_references_members_iff (style : HeaderStyle) (b : Block) (r : Reference) :
    ∀ e ∈ b.members, r ∈ e.references style ↔ ∃ t ∈ e.types style, r ∈ t.references := by
  have hknown (type : Option ObjcType) :
      r ∈ ObjcType.references? type ↔ ∃ t ∈ type.toList, r ∈ t.references := by
    cases type <;> simp [ObjcType.references?]
  refine b.forall_mem_members ?_ ?_ ?_
  · intro v
    exact hknown v.type
  · intro m isOptional _
    rw [Event.references, Event.types]
    -- a method that is not shown names no types
    split
    · simp
    · cases htype : m.type <;> simp [MethodType.references]
  · intro p ofClass
    exact hknown p.type

variable (style : HeaderStyle) (b : Block) (name : Text)

/-- A block refers to what its own line names and to what the types of its members name. -/
theorem mem_references_iff (r : Reference) :
    r ∈ b.references style ↔ r ∈ b.enter.references style ∨
      ∃ e ∈ b.members, ∃ t ∈ e.types style, r ∈ t.references := by
  rw [references, List.mem_append, List.mem_flatMap]
  apply or_congr_right
  refine exists_congr fun e => and_congr_right fun he => ?_
  exact b.mem_references_members_iff style r e he

theorem ofClass_mem_references_iff :
    .ofClass name ∈ b.references style ↔ b.NamesClass style name := by
  have henter : .ofClass name ∈ b.enter.references style ↔ b.target? = some name := by
    cases b <;> simp [enter, Event.references, target?, eq_comm]
  rw [mem_references_iff, henter, NamesClass]
  simp only [ObjcType.ofClass_mem_references_iff]

theorem ofProtocol_mem_references_iff :
    .ofProtocol name ∈ b.references style ↔ b.NamesProtocol style name := by
  have henter : .ofProtocol name ∈ b.enter.references style ↔ name ∈ b.adopted := by
    cases b <;> simp [enter, Event.references, adopted]
  rw [mem_references_iff, henter, NamesProtocol]
  simp only [ObjcType.ofProtocol_mem_references_iff]

end Block

theorem Reference.mem_filterMap_className? (refs : List Reference) (name : Text) :
    name ∈ refs.filterMap className? ↔ .ofClass name ∈ refs := by
  have heq (r : Reference) : r.className? = some name ↔ r = .ofClass name := by
    cases r <;> simp [className?]
  simp only [List.mem_filterMap, heq, exists_eq_right]

theorem Reference.mem_filterMap_protocolName? (refs : List Reference) (name : Text) :
    name ∈ refs.filterMap protocolName? ↔ .ofProtocol name ∈ refs := by
  have heq (r : Reference) : r.protocolName? = some name ↔ r = .ofProtocol name := by
    cases r <;> simp [protocolName?]
  simp only [List.mem_filterMap, heq, exists_eq_right]

/-- A class is unknown if no class of the model has the name. -/
theorem Model.hasClass_eq_false_iff (m : Model) (name : Text) :
    m.hasClass name = false ↔ ∀ c ∈ m.classes, c.name ≠ name := by
  simp [hasClass, class?]

/-- A protocol is unknown if no protocol of the model has the name. -/
theorem Model.hasProtocol_eq_false_iff (m : Model) (name : Text) :
    m.hasProtocol name = false ↔ ∀ p ∈ m.protocols, p.name ≠ name := by
  simp [hasProtocol, protocol?]

/-- The list has the names of which something is true, in order and each of them once. -/
structure Listing (p : Text → Prop) (names : List Text) : Prop where
  sorted : names.Pairwise fun a b => Text.le a b = true
  nodup : names.Nodup
  mem_iff : ∀ name, name ∈ names ↔ p name

/-- A listing depends only on which names are in it. -/
theorem Listing.congr {p q : Text → Prop} {names : List Text} (h : Listing p names)
    (hpq : ∀ name, p name ↔ q name) : Listing q names :=
  ⟨h.sorted, h.nodup, fun name => (h.mem_iff name).trans (hpq name)⟩

namespace Header

section Names

variable (isKnown : Text → Bool)

/-- A name is added unless it is empty or known. -/
theorem mem_addName_iff (names : List Text) (name other : Text) :
    other ∈ addName isKnown names name ↔
      other ∈ names ∨ (other = name ∧ other ≠ [] ∧ isKnown other = false) := by
  rw [addName]
  split
  · rename_i hskip
    simp only [Bool.or_eq_true, List.isEmpty_iff, List.contains_iff_mem] at hskip
    constructor
    · exact .inl
    · rintro (hmem | ⟨rfl, hne, hunknown⟩)
      · exact hmem
      · -- what is skipped is empty, known or there already
        rcases hskip with (hempty | hknown) | hmem
        · exact absurd hempty hne
        · rw [hunknown] at hknown
          cases hknown
        · exact hmem
  · rename_i hadd
    simp only [Bool.or_eq_true, List.isEmpty_iff, List.contains_iff_mem, not_or,
      Bool.not_eq_true] at hadd
    obtain ⟨⟨hne, hunknown⟩, -⟩ := hadd
    rw [List.mem_cons, or_comm]
    refine or_congr_right ⟨?_, fun h => h.1⟩
    rintro rfl
    exact ⟨rfl, hne, hunknown⟩

/-- A name is added once. -/
theorem nodup_addName {names : List Text} (h : names.Nodup) (name : Text) :
    (addName isKnown names name).Nodup := by
  rw [addName]
  split
  · exact h
  · rename_i hadd
    simp only [Bool.or_eq_true, List.contains_iff_mem, not_or] at hadd
    exact List.nodup_cons.2 ⟨hadd.2, h⟩

/-- What is collected are the names that are neither empty nor known. -/
theorem mem_addNames_iff (refs names : List Text) (name : Text) :
    name ∈ refs.foldl (addName isKnown) names ↔
      name ∈ names ∨ (name ∈ refs ∧ name ≠ [] ∧ isKnown name = false) := by
  induction refs generalizing names with
  | nil => simp
  | cons ref rest ih =>
    rw [List.foldl_cons, ih, mem_addName_iff, List.mem_cons]
    constructor
    · rintro ((hmem | ⟨rfl, hnew⟩) | ⟨hmem, hnew⟩)
      · exact .inl hmem
      · exact .inr ⟨.inl rfl, hnew⟩
      · exact .inr ⟨.inr hmem, hnew⟩
    · rintro (hmem | ⟨rfl | hmem, hnew⟩)
      · exact .inl (.inl hmem)
      · exact .inl (.inr ⟨rfl, hnew⟩)
      · exact .inr ⟨hmem, hnew⟩

/-- So are several names. -/
theorem nodup_addNames {names : List Text} (h : names.Nodup) (refs : List Text) :
    (refs.foldl (addName isKnown) names).Nodup := by
  induction refs generalizing names with
  | nil => exact h
  | cons ref rest ih => exact ih (nodup_addName isKnown h ref)

/-- Collected names that are sorted are those that are neither empty nor known, each of them
once. -/
theorem listing_addNames (refs : List Text) :
    Listing (fun name => name ≠ [] ∧ name ∈ refs ∧ isKnown name = false)
      (Text.sort (refs.foldl (addName isKnown) [])) where
  sorted := List.pairwise_mergeSort Text.isOrder_le.trans Text.isOrder_le.total _
  nodup := (List.mergeSort_perm _ _).nodup_iff.2 (nodup_addNames isKnown List.nodup_nil refs)
  mem_iff name := by
    rw [Text.sort, List.mem_mergeSort, mem_addNames_iff]
    simp only [List.not_mem_nil, false_or]
    tauto

end Names

/-- A line that declares names; nothing if there are none. -/
def forwardLine (palette : Palette) (word : Text) (names : List Text) : Text :=
  if names.isEmpty then []
  else palette.keyword word ++ " " ++ Text.joinWith ", " names ++ ";\n"

/-- The names of a forward declaration are sorted. -/
theorem forward_eq (palette : Palette) (word : Text) (names : List Text) :
    forward palette word names = forwardLine palette word (Text.sort names) := by
  have hempty : (Text.sort names).isEmpty = names.isEmpty :=
    (List.mergeSort_perm _ _).isEmpty_eq
  rw [forward, forwardLine, hempty]

/-- There is a forward declaration if there is a name for it. -/
theorem isEmpty_forwardLine (palette : Palette) (word : Text) (names : List Text) :
    (forwardLine palette word names).isEmpty = names.isEmpty := by
  cases names with
  | nil => rfl
  | cons name rest =>
    exact List.isEmpty_eq_false_iff.2 (List.append_ne_nil_of_right_ne_nil _ (by decide))

/-- What stands in front of the declarations: a line for classes, one for protocols, and an empty
line if there is one of them. -/
theorem forwards_eq (palette : Palette) {h : Header} (hshown : ¬h.style.noForwardDeclarations) :
    h.forwards palette =
      forwardLine palette "@class" (Text.sort h.classes) ++
        forwardLine palette "@protocol" (Text.sort h.protocols) ++
          if (Text.sort h.classes).isEmpty && (Text.sort h.protocols).isEmpty then []
          else "\n" := by
  have happend (a b : Text) : (a ++ b).isEmpty = (a.isEmpty && b.isEmpty) := by
    cases a <;> rfl
  rw [Bool.not_eq_true] at hshown
  simp only [forwards, forward_eq, hshown, Bool.false_or, happend, isEmpty_forwardLine]
  split
  · rename_i hempty
    rw [Bool.and_eq_true, List.isEmpty_iff, List.isEmpty_iff] at hempty
    rw [hempty.1, hempty.2]
    rfl
  · rfl

/-- The text of a header after a walk starts with the names that it uses and the model does not
define: a line of those classes that a visited entity inherits from or extends, or that an object in
the type of one of its members has, and a line of those protocols that a visited entity adopts, or
that such an object does. The names stand in order, each of them once, and a line without names is
left out. -/
theorem forwards_of_walkIn {m : Model} {scope : Scope} {force : List Glob}
    (hforce : Scope.compileAll "force pattern" scope.force = .ok force) {visible : Entity → Bool}
    (hvisible : ∀ e ∈ m.entities, Scope.sees scope.keep force e = some (visible e))
    (palette : Palette) {h : Header} (hshown : ¬h.style.noForwardDeclarations) :
    ∃ (events : List Event) (classes protocols : List Text), m.walkIn scope = .ok events ∧
      Listing (fun name => name ≠ [] ∧
        (∃ b ∈ m.blocks, visible b.entity = true ∧ b.NamesClass h.style name) ∧
        ∀ c ∈ m.classes, c.name ≠ name) classes ∧
      Listing (fun name => name ≠ [] ∧
        (∃ b ∈ m.blocks, visible b.entity = true ∧ b.NamesProtocol h.style name) ∧
        ∀ p ∈ m.protocols, p.name ≠ name) protocols ∧
      (h.seeAll palette m events).text palette =
        forwardLine palette "@class" classes ++ forwardLine palette "@protocol" protocols ++
          (if classes.isEmpty && protocols.isEmpty then [] else "\n") ++
          (h.seeAll palette m events).body := by
  have hgrows := grows_walk palette m.plan visible h
  -- both lists are collected from what the visited entities refer to
  let refs := (m.plan.visits visible).flatMap (·.references h.style)
  have hrefs (r : Reference) :
      r ∈ refs ↔ ∃ b ∈ m.blocks, visible b.entity = true ∧ r ∈ b.references h.style := by
    simp only [refs, List.mem_flatMap, m.plan.mem_visits_iff, and_assoc]
  have hclasses := listing_addNames m.hasClass (refs.filterMap Reference.className?)
  have hprotocols := listing_addNames m.hasProtocol (refs.filterMap Reference.protocolName?)
  refine ⟨m.plan.events visible, _, _, Model.walkIn_eq_ok hforce hvisible,
    hclasses.congr fun name => ?_, hprotocols.congr fun name => ?_, ?_⟩
  · rw [Reference.mem_filterMap_className?, hrefs, m.hasClass_eq_false_iff]
    simp only [Block.ofClass_mem_references_iff]
  · rw [Reference.mem_filterMap_protocolName?, hrefs, m.hasProtocol_eq_false_iff]
    simp only [Block.ofProtocol_mem_references_iff]
  · have hshown' : ¬(h.seeAll palette m (m.plan.events visible)).style.noForwardDeclarations := by
      rw [hgrows.style]
      exact hshown
    rw [text_eq, forwards_eq palette hshown', hgrows.classes, hgrows.protocols]
    rfl

/-- The forward declarations for a garden with a hidden class. -/
theorem forwards_of_walkIn_sampleGarden :
    Scope.compileAll "force pattern" Model.sampleScope.force = .ok [⟨.starting "Ro"⟩] ∧
      (∀ e ∈ sampleGarden.entities,
        Scope.sees Model.sampleScope.keep [⟨.starting "Ro"⟩] e = some (Model.sampleVisible e)) ∧
      ¬({} : Header).style.noForwardDeclarations ∧
      ∃ (events : List Event) (classes protocols : List Text),
        sampleGarden.walkIn Model.sampleScope = .ok events ∧
        Listing (fun name => name ≠ [] ∧
          (∃ b ∈ sampleGarden.blocks, Model.sampleVisible b.entity = true ∧
            b.NamesClass ({} : Header).style name) ∧
          ∀ c ∈ sampleGarden.classes, c.name ≠ name) classes ∧
        Listing (fun name => name ≠ [] ∧
          (∃ b ∈ sampleGarden.blocks, Model.sampleVisible b.entity = true ∧
            b.NamesProtocol ({} : Header).style name) ∧
          ∀ p ∈ sampleGarden.protocols, p.name ≠ name) protocols ∧
        (({} : Header).seeAll {} sampleGarden events).text {} =
          forwardLine {} "@class" classes ++ forwardLine {} "@protocol" protocols ++
            (if classes.isEmpty && protocols.isEmpty then [] else "\n") ++
            (({} : Header).seeAll {} sampleGarden events).body :=
  ⟨rfl, by decide, by decide, forwards_of_walkIn rfl (by decide) {} (by decide)⟩

-- the class that only a hidden method names is missing
example : ((sampleGarden.blocks.flatMap Block.events).foldl (see {} sampleGarden) {}).classes =
    ["Vein", "Tip", "Plant", "Seed", "Leaf"].map Text.ofString := by
  decide +kernel

end Header

end ObjcLens
