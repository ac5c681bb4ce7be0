import Mathlib
import ObjcLens.Proofs.Model.Visits
import ObjcLens.Proofs.Renaming.Use

/-!
# What a walk adds to a survey

A walk lists the events of entities one after the other, and each entity adds the names that it
uses to the table of the survey. `Adds` relates a list of events to the uses that it stands for; it
composes along the lists that a walk is made of.

## Main results

* `walk_eq_adds`: the uses that a walk stands for.
* `seeAll_tells`: after a walk the replacements are those of a table that tells of all uses.
* `seeAll_walk`: its names are those that the walk mentions.
-/

namespace ObjcLens.Renaming

/-- A survey can be taken along with the renamer or on its own. -/
private theorem survey_foldl_see (rules : Rules) (model : Model) (events : List Event)
    (r : Renamer) :
    (events.foldl (Renamer.see rules model) r).survey =
      events.foldl (Survey.see rules model) r.survey := by
  induction events generalizing r with
  | nil => rfl
  | cons e rest ih =>
    rw [List.foldl_cons, List.foldl_cons, ih]
    cases e <;> rfl

/-- After a walk the replacements are those of the table of its events, whatever the renamer had
seen before. -/
theorem seeAll_eq_assign (rules : Rules) (model : Model) (inner : List Event) (r : Renamer) :
    (r.seeAll rules model (.start :: (inner ++ [.finish]))).result =
      assign rules
        (inner.foldl (Survey.see rules model) (r.survey.see rules model .start)).table := by
  let begun := r.see rules model .start
  rw [Renamer.seeAll, List.foldl_cons, List.foldl_append, List.foldl_cons, List.foldl_nil]
  calc ((inner.foldl (Renamer.see rules model) begun).see rules model .finish).result
      = assign rules (inner.foldl (Renamer.see rules model) begun).survey.table := rfl
    _ = _ := by rw [survey_foldl_see]; rfl

/-- The events stand for the uses. -/
structure Adds (rules : Rules) (model : Model) (events : List Event) (uses : List NameUse) :
    Prop where
  /-- The events add the uses to the table of a survey. -/
  table_foldl_see : ∀ s : Survey, (events.foldl (Survey.see rules model) s).table =
    uses.foldl (record rules model) s.table
  /-- The events mention the used names. -/
  mem_mentions_iff : ∀ name ≠ [],
    name ∈ events.flatMap (mentions rules) ↔ ∃ x ∈ uses, x.name? = some name

namespace Adds

variable {rules : Rules} {model : Model}

theorem nil (rules : Rules) (model : Model) : Adds rules model [] [] :=
  ⟨fun _ => rfl, by simp⟩

/-- The uses of one event sequence after another are added up. -/
theorem append {events events' : List Event} {uses uses' : List NameUse}
    (h : Adds rules model events uses) (h' : Adds rules model events' uses') :
    Adds rules model (events ++ events') (uses ++ uses') := by
  refine ⟨fun s => ?_, fun name hname => ?_⟩
  · rw [List.foldl_append, List.foldl_append, h'.table_foldl_see, h.table_foldl_see]
  · rw [List.flatMap_append, List.mem_append, h.mem_mentions_iff name hname,
      h'.mem_mentions_iff name hname]
    simp only [List.mem_append, or_and_right, exists_or]

theorem flatMap {α : Type} {f : α → List Event} {g : α → List NameUse}
    (h : ∀ a, Adds rules model (f a) (g a)) (xs : List α) :
    Adds rules model (xs.flatMap f) (xs.flatMap g) := by
  induction xs with
  | nil => exact nil rules model
  | cons a rest ih => exact (h a).append ih

theorem ite {events : List Event} {uses : List NameUse} (h : Adds rules model events uses)
    (b : Bool) :
    Adds rules model (if b then events else []) (if b then uses else []) := by
  cases b
  · exact nil rules model
  · exact h

end Adds

section Survey

variable (rules : Rules) (model : Model) (owner : Owner)

/-- A selector is recorded piece by piece. -/
private theorem useSelector_eq_foldl_record (name : Text) (t : UsageTable) :
    useSelector rules name (owner.mayRename rules) t =
      (selectorUses owner name).foldl (record rules model) t := by
  rw [selectorUses, List.foldl_map]
  rfl

/-- References are recorded one by one. -/
private theorem referAll_eq_foldl_record (refs : List Reference) (t : UsageTable) :
    referAll rules model refs t =
      (refs.map NameUse.reference).foldl (record rules model) t := by
  rw [List.foldl_map]
  rfl

private theorem accessor_eq_foldl_record (name : Text) (t : UsageTable) :
    (if name.isEmpty then t else useSelector rules name (owner.mayRename rules) t) =
      (accessorUses owner name).foldl (record rules model) t := by
  rw [accessorUses]
  split
  · rfl
  · exact useSelector_eq_foldl_record rules model owner name t

/-- A property is recorded with its type, its accessors and its variable. -/
private theorem useProperty_eq_foldl_record (p : Property) (ofClass : Bool) (t : UsageTable) :
    useProperty rules model (owner.mayRename rules) p t =
      (memberUses rules owner (.property p ofClass)).foldl (record rules model) t := by
  have hbacking (t : UsageTable) :
      (if rules.renameMembers then t else use rules (backingIvar p) .ivar false t) =
        (if rules.renameMembers then [] else [NameUse.backingIvar (backingIvar p)]).foldl
          (record rules model) t := by
    split <;> rfl
  rw [memberUses, List.cons_append, List.cons_append, List.cons_append, List.foldl_cons,
    List.foldl_append, List.foldl_append, List.foldl_append, useProperty,
    ← referAll_eq_foldl_record, ← accessor_eq_foldl_record, ← accessor_eq_foldl_record, ← hbacking]
  rfl

/-- A member of an entity. -/
def isMember : Event → Bool
  | .ivar _ | .method _ _ | .property _ _ => true
  | _ => false

/-- A member adds the names that it uses to the table, and leaves the rest of the survey. -/
theorem see_member {e : Event} (he : isMember e = true) {s : Survey}
    (hs : s.eligible = owner.mayRename rules) :
    s.see rules model e =
      { s with table := (memberUses rules owner e).foldl (record rules model) s.table } := by
  cases e with
  | ivar v =>
    rw [Survey.see, hs, referAll_eq_foldl_record]
    rfl
  | method m isOptional =>
    rw [Survey.see, hs, referAll_eq_foldl_record, useSelector_eq_foldl_record rules model,
      memberUses, List.foldl_append]
  | property p ofClass =>
    rw [Survey.see, hs, useProperty_eq_foldl_record rules model owner p ofClass]
  | start | finish | enterProtocol | leaveProtocol | enterClass | leaveClass | enterCategory
  | leaveCategory => simp [isMember] at he

/-- The members of an entity add the names that they use. -/
theorem foldl_see_members {events : List Event} (h : ∀ e ∈ events, isMember e = true) {s : Survey}
    (hs : s.eligible = owner.mayRename rules) :
    events.foldl (Survey.see rules model) s =
      { s with
        table :=
          (events.flatMap (memberUses rules owner)).foldl (record rules model) s.table } := by
  induction events generalizing s with
  | nil => rfl
  | cons e rest ih =>
    rw [List.foldl_cons, see_member rules model owner (h e List.mem_cons_self) hs,
      ih (fun e' he' => h e' (List.mem_cons_of_mem _ he')) (by exact hs), List.flatMap_cons,
      List.foldl_append]

end Survey

section Mentions

variable {rules : Rules} {owner : Owner} {name : Text}

private theorem exists_use_append {uses uses' : List NameUse} :
    (∃ x ∈ uses ++ uses', x.name? = some name) ↔
      (∃ x ∈ uses, x.name? = some name) ∨ ∃ x ∈ uses', x.name? = some name := by
  simp only [List.mem_append, or_and_right, exists_or]

private theorem exists_use_cons {x : NameUse} {uses : List NameUse} :
    (∃ y ∈ x :: uses, y.name? = some name) ↔
      x.name? = some name ∨ ∃ y ∈ uses, y.name? = some name := by
  simp only [List.mem_cons, or_and_right, exists_or, exists_eq_left]

private theorem exists_reference_iff {refs : List Reference} :
    (∃ x ∈ refs.map NameUse.reference, x.name? = some name) ↔
      name ∈ refs.filterMap (·.name?) := by
  simp [NameUse.name?]

/-- The names a selector uses are its pieces. -/
private theorem exists_selectorUse_iff {selector : Text} :
    (∃ x ∈ selectorUses owner selector, x.name? = some name) ↔ name ∈ selectorPieces selector := by
  simp [selectorUses, NameUse.name?]

/-- An accessor that is not given has no pieces but the empty one. -/
private theorem exists_accessorUse_iff (hname : name ≠ []) {selector : Text} :
    (∃ x ∈ accessorUses owner selector, x.name? = some name) ↔ name ∈ selectorPieces selector := by
  rw [accessorUses]
  cases selector with
  | nil =>
    have hnil : name ∉ selectorPieces [] := by simpa [selectorPieces, Text.splitOn] using hname
    simp [hnil]
  | cons b rest => exact exists_selectorUse_iff

/-- A member mentions the names that it uses. -/
theorem mem_mentions_member {e : Event} (he : isMember e = true) (hname : name ≠ []) :
    name ∈ mentions rules e ↔ ∃ x ∈ memberUses rules owner e, x.name? = some name := by
  cases e with
  | ivar v =>
    rw [mentions, memberUses, exists_use_cons, exists_reference_iff, List.mem_cons]
    simp [NameUse.name?, eq_comm]
  | method m isOptional =>
    rw [mentions, memberUses, exists_use_append, exists_selectorUse_iff, exists_reference_iff,
      List.mem_append]
  | property p ofClass =>
    rw [mentions, memberUses, exists_use_append, exists_use_append, exists_use_append,
      exists_use_cons, exists_reference_iff, exists_accessorUse_iff hname,
      exists_accessorUse_iff hname]
    -- without the renaming of members the variable behind the property is mentioned too
    cases rules.renameMembers <;> simp [NameUse.name?, eq_comm, or_assoc]
  | start | finish | enterProtocol | leaveProtocol | enterClass | leaveClass | enterCategory
  | leaveCategory => simp [isMember] at he

end Mentions

section Entities

variable (rules : Rules) (model : Model)

/-- An entity with its members adds the names that it uses: entering it makes the survey mind
whether it may be renamed, and adds its name and those that it refers to. -/
private theorem adds_entity {enter leave : Event} {owner : Owner} {refs : List Reference}
    {members : List Event} (hmembers : ∀ e ∈ members, isMember e = true)
    (henter : ∀ s : Survey, s.see rules model enter = ⟨owner.mayRename rules,
      referAll rules model refs (record rules model s.table (.entity owner))⟩)
    (hleave : ∀ s : Survey, (s.see rules model leave).table = s.table)
    (hmentions : mentions rules enter = owner.name :: refs.filterMap (·.name?))
    (hnone : mentions rules leave = []) :
    Adds rules model (enter :: (members ++ [leave])) (entityUses rules owner refs members) := by
  refine ⟨fun s => ?_, fun name hname => ?_⟩
  · rw [List.foldl_cons, List.foldl_append, henter,
      foldl_see_members rules model owner hmembers rfl, List.foldl_cons, List.foldl_nil, hleave,
      entityUses, List.cons_append, List.foldl_cons, List.foldl_append, referAll_eq_foldl_record]
  · have hmember : name ∈ members.flatMap (mentions rules) ↔
        ∃ x ∈ members.flatMap (memberUses rules owner), x.name? = some name := by
      simp only [List.mem_flatMap]
      constructor
      · rintro ⟨e, he, hmem⟩
        obtain ⟨x, hx, hused⟩ := (mem_mentions_member (hmembers e he) hname).1 hmem
        exact ⟨x, ⟨e, he, hx⟩, hused⟩
      · rintro ⟨x, ⟨e, he, hx⟩, hused⟩
        exact ⟨e, he, (mem_mentions_member (hmembers e he) hname).2 ⟨x, hx, hused⟩⟩
    rw [entityUses, exists_use_append, exists_use_cons, exists_reference_iff, ← hmember]
    simp [hmentions, hnone, NameUse.name?, eq_comm, or_assoc]

/-- The names of adopted protocols are references. -/
private theorem filterMap_ofProtocol (protocols : List Text) :
    (protocols.map Reference.ofProtocol).filterMap (·.name?) = protocols := by
  simp [List.filterMap_map, Function.comp_def]

private theorem isMember_of_mem_members (b : Block) : ∀ e ∈ b.members, isMember e = true :=
  b.forall_mem_members (fun _ => rfl) (fun _ _ _ => rfl) fun _ _ => rfl

/-- A visit of a protocol adds the uses of its names. -/
theorem adds_protocol (p : Protocol) :
    Adds rules model (Model.visitProtocol p) (protocolUses rules p) := by
  rw [Model.visitProtocol_eq]
  refine adds_entity rules model (isMember_of_mem_members (.ofProtocol p)) (fun _ => rfl)
    (fun _ => rfl) ?_ rfl
  rw [mentions, filterMap_ofProtocol]

/-- A visit of a class adds the uses of its names. -/
theorem adds_class (c : Class) : Adds rules model (Model.visitClass c) (classUses rules c) := by
  rw [Model.visitClass_eq]
  refine adds_entity rules model (isMember_of_mem_members (.ofClass c)) (fun _ => rfl)
    (fun _ => rfl) ?_ rfl
  rw [mentions, List.filterMap_cons, filterMap_ofProtocol]
  rfl

/-- A visit of a category adds the uses of its names. -/
theorem adds_category (c : Category) :
    Adds rules model (Model.visitCategory c) (categoryUses rules c) := by
  rw [Model.visitCategory_eq]
  refine adds_entity rules model (isMember_of_mem_members (.ofCategory c)) (fun _ => rfl)
    (fun _ => rfl) ?_ rfl
  rw [mentions, List.filterMap_cons, filterMap_ofProtocol]
  rfl

end Entities

/-- The uses of names in the order of a walk. -/
def usesAlong (rules : Rules) (model : Model) (visible : Entity → Bool) : List NameUse :=
  let categories := model.sortedCategories
  let ofCategory (c : Category) : List NameUse :=
    if visible ⟨.ofCategory, c.key, c.className⟩ then categoryUses rules c else []
  (model.sortedProtocols.flatMap fun p =>
      if visible ⟨.ofProtocol, p.name, []⟩ then protocolUses rules p else []) ++
    (model.sortedClasses.flatMap fun c =>
      (if visible ⟨.ofClass, c.name, []⟩ then classUses rules c else []) ++
        (categories.filter (·.className = c.name)).flatMap ofCategory) ++
    (categories.filter fun c => !model.hasClass c.className).flatMap ofCategory

/-- A walk adds the uses of names between its start and its end. -/
theorem walk_eq_adds (rules : Rules) (model : Model) (visible : Entity → Bool) :
    ∃ inner : List Event, model.walk visible = .start :: (inner ++ [.finish]) ∧
      Adds rules model inner (usesAlong rules model visible) := by
  have hcategory (c : Category) := (adds_category rules model c).ite
    (visible ⟨.ofCategory, c.key, c.className⟩)
  refine ⟨[] ++ _ ++ _ ++ _, rfl, ?_⟩
  rw [List.nil_append]
  refine (Adds.append ?_ ?_).append (Adds.flatMap hcategory _)
  · exact Adds.flatMap (fun p => (adds_protocol rules model p).ite _) _
  · exact Adds.flatMap
      (fun c => ((adds_class rules model c).ite _).append (Adds.flatMap hcategory _)) _

theorem hasClass_iff (model : Model) (name : Text) :
    model.hasClass name = true ↔ ∃ c ∈ model.classes, c.name = name := by
  simp [Model.hasClass, Model.class?]

/-- The order of a walk does not matter for which uses there are. -/
theorem mem_usesAlong_iff (rules : Rules) (model : Model) (visible : Entity → Bool) (x : NameUse) :
    x ∈ usesAlong rules model visible ↔ x ∈ usesIn rules model visible := by
  have hite {b : Bool} {uses : List NameUse} :
      x ∈ (if b then uses else []) ↔ b = true ∧ x ∈ uses := by
    cases b <;> simp
  simp only [usesAlong, usesIn, Model.sortedProtocols, Model.sortedClasses, Model.sortedCategories,
    List.mem_append, List.mem_flatMap, List.mem_filter, List.mem_mergeSort, hite, and_assoc,
    decide_eq_true_eq, Bool.not_eq_true', or_assoc]
  refine or_congr_right ⟨?_, ?_⟩
  · rintro (⟨c, hc, hx | ⟨k, hk, -, hx⟩⟩ | ⟨k, hk, -, hx⟩)
    · exact .inl ⟨c, hc, hx⟩
    · exact .inr ⟨k, hk, hx⟩
    · exact .inr ⟨k, hk, hx⟩
  · rintro (⟨c, hc, hx⟩ | ⟨k, hk, hx⟩)
    · exact .inl ⟨c, hc, .inl hx⟩
    · cases hclass : model.hasClass k.className with
      | false => exact .inr ⟨k, hk, hclass, hx⟩
      | true =>
        obtain ⟨c, hc, hname⟩ := (hasClass_iff model k.className).1 hclass
        exact .inl ⟨c, hc, .inr ⟨k, hk, hname.symm, hx⟩⟩

/-- After a walk the replacements are those of a table that tells of all uses of names. -/
theorem seeAll_tells (rules : Rules) (model : Model) (visible : Entity → Bool) (r : Renamer) :
    ∃ t : UsageTable, (r.seeAll rules model (model.walk visible)).result = assign rules t ∧
      Tells rules model (usesIn rules model visible) t := by
  obtain ⟨inner, hwalk, hadds⟩ := walk_eq_adds rules model visible
  refine ⟨_, by rw [hwalk]; exact seeAll_eq_assign rules model inner r, ?_⟩
  rw [hadds.table_foldl_see]
  have htells := (Tells.nil rules model).foldl_record (usesAlong rules model visible)
  rw [List.nil_append] at htells
  exact htells.congr fun x => (mem_usesAlong_iff rules model visible x).symm

/-- After a walk the replacements are those of a table that holds exactly the names that the walk
mentions. -/
theorem seeAll_walk (rules : Rules) (model : Model) (visible : Entity → Bool) (r : Renamer) :
    ∃ t : UsageTable, (r.seeAll rules model (model.walk visible)).result = assign rules t ∧
      ∀ name, name ∈ t.names ↔
        name ≠ [] ∧ name ∈ (model.walk visible).flatMap (mentions rules) := by
  obtain ⟨t, hresult, htells⟩ := seeAll_tells rules model visible r
  obtain ⟨inner, hwalk, hadds⟩ := walk_eq_adds rules model visible
  refine ⟨t, hresult, fun name => ?_⟩
  rw [htells.mem_names_iff]
  refine and_congr_right fun hname => ?_
  have hinner := hadds.mem_mentions_iff name hname
  simp only [mem_usesAlong_iff] at hinner
  rw [← hinner, hwalk]
  simp [mentions]

end ObjcLens.Renaming
