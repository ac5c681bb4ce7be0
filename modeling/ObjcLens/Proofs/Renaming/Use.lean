import Mathlib
import ObjcLens.Renaming.Assign

/-!
# Uses of names on a walk

`mentions` lists the names that an event of a walk brings up, whether they may be replaced or not.
`usesIn` lists how the entities that a walk sees use names: entities, instance variables, selector
pieces and properties by their own names, and references to other names. What a use means for the
name does not depend on the other uses. It can allow the name to be replaced, or block it.

The table of a survey sums up these uses. The invariant `Tells` says how: a name is known if it is
used at all, eligible if some use allows it, and blocked if some use blocks it. Since nothing of
this depends on an order, the uses may be listed entity by entity, although a walk sorts them.

## Main results

* `get?_update`: what a change of a table changes.
* `Tells.record`: one more use.
* `Tells.foldl_record`: any number of uses.
-/

namespace ObjcLens

/-- The name that a reference gives. The tag `?` of an anonymous aggregate is no name. -/
def Reference.name? : Reference → Option Text
  | .ofClass name | .ofProtocol name | .ofMember name => some name
  | .ofTag name => if name = Text.ofString "?" then none else some name

@[simp]
theorem Reference.name?_ofClass (name : Text) : (Reference.ofClass name).name? = some name := rfl

@[simp]
theorem Reference.name?_ofProtocol (name : Text) :
    (Reference.ofProtocol name).name? = some name := rfl

/-- What stands between the start and the end of a protocol on a walk. -/
def Protocol.members (p : Protocol) : List Event :=
  Event.methods false p.classMethods ++ Event.methods false p.instanceMethods ++
    Event.methods true p.optionalClassMethods ++ Event.methods true p.optionalInstanceMethods ++
    Event.properties true p.classProperties ++ Event.properties false p.properties

/-- What stands between the start and the end of a class on a walk. -/
def Class.members (c : Class) : List Event :=
  c.ivars.map .ivar ++ Event.methods false c.classMethods ++
    Event.methods false c.instanceMethods ++ Event.properties true c.classProperties ++
    Event.properties false c.properties

/-- What stands between the start and the end of a category on a walk. -/
def Category.members (c : Category) : List Event :=
  Event.methods false c.classMethods ++ Event.methods false c.instanceMethods ++
    Event.properties true c.classProperties ++ Event.properties false c.properties

namespace Renaming

/-- An entity that uses names. -/
structure Owner where
  /-- Its kind. -/
  kind : EntityKind
  /-- Its own name. -/
  name : Text
  /-- The other names that it is known by. -/
  otherNames : List Text := []

/-- What the name of the entity stands for. -/
def Owner.symbolKind (o : Owner) : SymbolKind :=
  match o.kind with
  | .ofProtocol => .protocolName
  | .ofClass => .className
  | .ofCategory => .categoryName

/-- The entity is neither ignored nor out of scope. -/
def Owner.mayRename (rules : Rules) (o : Owner) : Bool :=
  Renaming.mayRename rules o.name o.otherNames

/-- One use of a name. -/
inductive NameUse where
  /-- The name of an entity. -/
  | entity (owner : Owner)
  /-- The name of an instance variable. -/
  | ivar (owner : Owner) (name : Text)
  /-- A piece of a selector, which is the name of a method or an accessor of a property. -/
  | selectorPiece (owner : Owner) (name : Text)
  /-- The name of a property. -/
  | property (owner : Owner) (name : Text)
  /-- The instance variable behind a property that keeps its name. -/
  | backingIvar (name : Text)
  /-- A reference to a class, a protocol, or a name inside a type. -/
  | reference (ref : Reference)

namespace NameUse

/-- The name that is used. An anonymous aggregate has none. -/
def name? : NameUse → Option Text
  | .entity owner => some owner.name
  | .ivar _ name | .selectorPiece _ name | .property _ name | .backingIvar name => some name
  | .reference ref => ref.name?

/-- A property or a selector of this name may be defined as another. -/
def isMemberName (rules : Rules) (name : Text) : Bool :=
  rules.renameMembers && isIdentifier name && !runtimeSelectors.contains name

/-- The use allows the name to be replaced. References leave that to others. -/
def allows (rules : Rules) : NameUse → Bool
  | .entity owner => owner.mayRename rules
  | .ivar owner name => owner.mayRename rules && !rules.isIgnored name
  | .selectorPiece owner name | .property owner name =>
    owner.mayRename rules && !rules.isIgnored name && isMemberName rules name
  | .backingIvar _ | .reference _ => false

/-- The use forbids the name to be replaced: the entity must stay as it is or the name must, or it
belongs to someone else. -/
def blocks (rules : Rules) (model : Model) : NameUse → Bool
  | .entity owner => !owner.mayRename rules
  | .ivar owner name => !owner.mayRename rules || rules.isIgnored name
  | .selectorPiece owner name | .property owner name =>
    !owner.mayRename rules || rules.isIgnored name || !isMemberName rules name
  | .backingIvar _ => true
  | .reference (.ofClass name) => !model.hasClass name
  | .reference (.ofProtocol name) => !model.hasProtocol name
  | .reference (.ofTag _) | .reference (.ofMember _) => true

/-- The name is used for a property. -/
def isProperty : NameUse → Bool
  | .property _ _ => true
  | _ => false

end NameUse

/-- The pieces of a selector. -/
def selectorUses (owner : Owner) (name : Text) : List NameUse :=
  (selectorPieces name).map (.selectorPiece owner)

/-- The pieces of an accessor, if it is given. -/
def accessorUses (owner : Owner) (name : Text) : List NameUse :=
  if name.isEmpty then [] else selectorUses owner name

/-- The names that a member of an entity uses. -/
def memberUses (rules : Rules) (owner : Owner) : Event → List NameUse
  | .ivar v => .ivar owner v.name :: (ObjcType.references? v.type).map .reference
  | .method m _ =>
    selectorUses owner m.name ++ ((m.type.map (·.references)).getD []).map .reference
  | .property p _ =>
    .property owner p.name :: (ObjcType.references? p.type).map .reference ++
      accessorUses owner p.attributes.getter ++ accessorUses owner p.attributes.setter ++
      if rules.renameMembers then [] else [.backingIvar (backingIvar p)]
  | _ => []

/-- The names that an entity uses: its own, those that it refers to, and those of its members. -/
def entityUses (rules : Rules) (owner : Owner) (refs : List Reference)
    (members : List Event) : List NameUse :=
  .entity owner :: refs.map .reference ++ members.flatMap (memberUses rules owner)

/-- The names that a protocol uses. -/
def protocolUses (rules : Rules) (p : Protocol) : List NameUse :=
  entityUses rules ⟨.ofProtocol, p.name, []⟩ (p.protocols.map .ofProtocol) p.members

/-- The names that a class uses. -/
def classUses (rules : Rules) (c : Class) : List NameUse :=
  entityUses rules ⟨.ofClass, c.name, []⟩
    (.ofClass c.superclass :: c.protocols.map .ofProtocol) c.members

/-- The names that a category uses. It is also known by the name of its class. -/
def categoryUses (rules : Rules) (c : Category) : List NameUse :=
  entityUses rules ⟨.ofCategory, c.name, [c.className]⟩
    (.ofClass c.className :: c.protocols.map .ofProtocol) c.members

/-- The names that the visible entities of a model use. -/
def usesIn (rules : Rules) (model : Model) (visible : Entity → Bool) : List NameUse :=
  (model.protocols.filter fun p => visible ⟨.ofProtocol, p.name, []⟩).flatMap
      (protocolUses rules) ++
    (model.classes.filter fun c => visible ⟨.ofClass, c.name, []⟩).flatMap (classUses rules) ++
    (model.categories.filter fun c => visible ⟨.ofCategory, c.key, c.className⟩).flatMap
      (categoryUses rules)

/-- The names that are brought up by an event of a walk. -/
def mentions (rules : Rules) : Event → List Text
  | .enterProtocol p => p.name :: p.protocols
  | .enterClass c => c.name :: c.superclass :: c.protocols
  | .enterCategory c => c.name :: c.className :: c.protocols
  | .ivar v => v.name :: (ObjcType.references? v.type).filterMap (·.name?)
  | .method m _ =>
    selectorPieces m.name ++ ((m.type.map (·.references)).getD []).filterMap (·.name?)
  | .property p _ =>
    p.name :: (ObjcType.references? p.type).filterMap (·.name?) ++
      selectorPieces p.attributes.getter ++ selectorPieces p.attributes.setter ++
      (if rules.renameMembers then [] else [backingIvar p])
  | _ => []

namespace UsageTable

/-- The names of a table. -/
def names (t : UsageTable) : List Text := t.map (·.1)

/-- A table knows the names that it holds. -/
theorem knows_iff (t : UsageTable) (name : Text) : t.knows name = true ↔ name ∈ t.names := by
  simp only [knows, get?, Option.isSome_map, List.find?_isSome, names, List.mem_map,
    decide_eq_true_eq]

/-- Changing the usage of a name changes no name. -/
private theorem map_fst_change (t : UsageTable) (name : Text) (change : Usage → Usage) :
    (t.map fun entry => if entry.1 = name then (name, change entry.2) else entry).map (·.1) =
      t.map (·.1) := by
  rw [List.map_map]
  refine List.map_congr_left fun entry _ => ?_
  by_cases h : entry.1 = name <;> simp [h]

/-- A change of the uses of a name adds that name and no other. -/
theorem mem_names_update (t : UsageTable) (name other : Text) (new : Usage)
    (change : Usage → Usage) :
    other ∈ (t.update name new change).names ↔ other = name ∨ other ∈ t.names := by
  by_cases h : t.knows name = true
  · have hmem : name ∈ t.names := (t.knows_iff name).1 h
    rw [update, if_pos h, names, map_fst_change]
    exact ⟨Or.inr, fun ho => ho.elim (fun he => he ▸ hmem) id⟩
  · simp [update, h, names]

/-- A change of the uses of a name changes nothing else. -/
theorem get?_update (t : UsageTable) (name other : Text) (new : Usage) (change : Usage → Usage) :
    (t.update name new change).get? other =
      if other = name then some (change ((t.get? name).getD new)) else t.get? other := by
  by_cases hknows : t.knows name = true
  · obtain ⟨u, hu⟩ : ∃ u, t.get? name = some u := Option.isSome_iff_exists.1 hknows
    obtain ⟨entry, hentry, rfl⟩ := Option.map_eq_some_iff.1 hu
    -- a change leaves the keys alone, so it is the entry of the same place that is found
    have hkey (e : Text × Usage) :
        decide ((if e.1 = name then (name, change e.2) else e).1 = other) =
          decide (e.1 = other) := by
      by_cases h : e.1 = name <;> simp [h]
    rw [update, if_pos hknows, get?, List.find?_map, hu]
    simp only [Function.comp_def, hkey]
    by_cases hother : other = name
    · subst hother
      have hname : entry.1 = other := by simpa using List.find?_some hentry
      simp [hentry, hname]
    · rw [if_neg hother, get?]
      cases hfind : t.find? fun e => e.1 = other with
      | none => rfl
      | some e =>
        have he : e.1 ≠ name := by
          have hname : e.1 = other := by simpa using List.find?_some hfind
          rwa [hname]
        simp [he]
  · have hnone : t.get? name = none := by simpa [knows] using hknows
    rw [update, if_neg hknows, hnone]
    by_cases hother : other = name
    · simp [get?, hother]
    · simp [get?, hother, Ne.symm hother]

/-- An update adds a name only when the table does not have it. -/
theorem nodup_names_update {t : UsageTable} (h : t.names.Nodup) (name : Text) (new : Usage)
    (change : Usage → Usage) : (t.update name new change).names.Nodup := by
  by_cases hknows : t.knows name = true
  · rw [update, if_pos hknows, names, map_fst_change]
    exact h
  · have hnew : name ∉ t.names := fun hmem => hknows ((t.knows_iff name).2 hmem)
    rw [update, if_neg hknows]
    exact List.nodup_cons.2 ⟨hnew, h⟩

/-- Two changes of the same name are one. -/
theorem update_update (t : UsageTable) (name : Text) (new new' : Usage)
    (change change' : Usage → Usage) :
    (t.update name new change).update name new' change' =
      t.update name new fun u => change' (change u) := by
  have hknown : (t.update name new change).knows name = true := by
    rw [knows, get?_update, if_pos rfl]
    rfl
  rw [update, if_pos hknown, update, update]
  split
  · rw [List.map_map]
    refine List.map_congr_left fun entry _ => ?_
    by_cases h : entry.1 = name <;> simp [h]
  · rename_i hnew
    have hother : ∀ entry ∈ t, entry.1 ≠ name := fun entry hentry hname =>
      hnew ((t.knows_iff name).2 (List.mem_map.2 ⟨entry, hentry, hname⟩))
    rw [List.map_cons, if_pos rfl]
    congr 1
    exact (List.map_congr_left fun entry hentry => if_neg (hother entry hentry)).trans
      (List.map_id' t)

end UsageTable

/-- A table with one more use. -/
def record (rules : Rules) (model : Model) (t : UsageTable) : NameUse → UsageTable
  | .entity owner => use rules owner.name owner.symbolKind (owner.mayRename rules) t
  | .ivar owner name => use rules name .ivar (owner.mayRename rules) t
  | .selectorPiece owner name =>
    use rules name .selector (owner.mayRename rules && rules.renameMembers) t
  | .property owner name =>
    let t := use rules name .property (owner.mayRename rules && rules.renameMembers) t
    if t.knows name then
      t.update name { kind := .property } fun u => { u with kind := .property, isProperty := true }
    else t
  | .backingIvar name => use rules name .ivar false t
  | .reference ref => referIn rules model t ref

/-- The table of a survey sums up the uses of names. -/
structure Tells (rules : Rules) (model : Model) (uses : List NameUse) (t : UsageTable) : Prop where
  /-- There is one entry for each name. -/
  nodup : t.names.Nodup
  /-- A name is known if it is used. -/
  mem_names_iff : ∀ name, name ∈ t.names ↔ name ≠ [] ∧ ∃ x ∈ uses, x.name? = some name
  /-- A name is eligible if some use allows it to be replaced. -/
  isEligible_iff : ∀ name u, t.get? name = some u →
    (u.isEligible = true ↔ ∃ x ∈ uses, x.name? = some name ∧ x.allows rules = true)
  /-- A name is blocked if some use forbids it to be replaced. -/
  isBlocked_iff : ∀ name u, t.get? name = some u →
    (u.isBlocked = true ↔ ∃ x ∈ uses, x.name? = some name ∧ x.blocks rules model = true)
  /-- A name is that of a property if it is used for one. -/
  isProperty_iff : ∀ name u, t.get? name = some u →
    (u.isProperty = true ↔ ∃ x ∈ uses, x.name? = some name ∧ x.isProperty = true)

namespace Tells

variable {rules : Rules} {model : Model} {uses : List NameUse} {t : UsageTable}

theorem nil (rules : Rules) (model : Model) : Tells rules model [] [] where
  nodup := List.nodup_nil
  mem_names_iff := by simp [UsageTable.names]
  isEligible_iff := by simp [UsageTable.get?]
  isBlocked_iff := by simp [UsageTable.get?]
  isProperty_iff := by simp [UsageTable.get?]

/-- The order of the uses does not count. -/
theorem congr (h : Tells rules model uses t) {uses' : List NameUse}
    (huses : ∀ x, x ∈ uses' ↔ x ∈ uses) : Tells rules model uses' t where
  nodup := h.nodup
  mem_names_iff := by simpa only [huses] using h.mem_names_iff
  isEligible_iff := by simpa only [huses] using h.isEligible_iff
  isBlocked_iff := by simpa only [huses] using h.isBlocked_iff
  isProperty_iff := by simpa only [huses] using h.isProperty_iff

/-- The names of a table are not empty. -/
theorem ne_nil (h : Tells rules model uses t) {name : Text} {u : Usage}
    (hget : t.get? name = some u) : name ≠ [] := by
  have hknown : t.knows name = true := by simp [UsageTable.knows, hget]
  exact ((h.mem_names_iff name).1 ((t.knows_iff name).1 hknown)).1

/-- What holds for a use of a name once there is one more. -/
private theorem exists_use_append_singleton {p : NameUse → Prop} {x : NameUse} {name : Text} :
    (∃ y ∈ uses ++ [x], y.name? = some name ∧ p y) ↔
      (∃ y ∈ uses, y.name? = some name ∧ p y) ∨ (x.name? = some name ∧ p x) := by
  simp [or_and_right, exists_or]

/-- A use without a name changes nothing. -/
theorem skip (h : Tells rules model uses t) {x : NameUse}
    (hx : ∀ name, x.name? = some name → name = []) : Tells rules model (uses ++ [x]) t := by
  -- the additional use names nothing, so it is no use of any other name
  have hother {p : NameUse → Prop} {name : Text} (hname : name ≠ []) :
      (∃ y ∈ uses ++ [x], y.name? = some name ∧ p y) ↔
        ∃ y ∈ uses, y.name? = some name ∧ p y := by
    rw [exists_use_append_singleton]
    exact or_iff_left fun hp => hname (hx name hp.1)
  refine ⟨h.nodup, fun name => ?_, fun name u hget => ?_, fun name u hget => ?_,
    fun name u hget => ?_⟩
  · rw [h.mem_names_iff]
    refine and_congr_right fun hname => ?_
    simpa using (hother (p := fun _ => True) hname).symm
  · rw [h.isEligible_iff name u hget, hother (h.ne_nil hget)]
  · rw [h.isBlocked_iff name u hget, hother (h.ne_nil hget)]
  · rw [h.isProperty_iff name u hget, hother (h.ne_nil hget)]

/-- One entry of a table once there is one more use: `flag` is what the entry says, and `p` what
it says of a use. -/
private theorem flag_update (h : Tells rules model uses t) {flag : Usage → Bool}
    {p : NameUse → Bool}
    (hflag : ∀ name u, t.get? name = some u →
      (flag u = true ↔ ∃ y ∈ uses, y.name? = some name ∧ p y = true))
    {x : NameUse} {name : Text} (hx : x.name? = some name) (hname : name ≠ []) {new : Usage}
    (hnew : flag new = false) {change : Usage → Usage}
    (hchange : ∀ u, flag (change u) = (flag u || p x)) {other : Text} {u : Usage}
    (hget : (t.update name new change).get? other = some u) :
    flag u = true ↔ ∃ y ∈ uses ++ [x], y.name? = some other ∧ p y = true := by
  rw [exists_use_append_singleton]
  rw [UsageTable.get?_update] at hget
  by_cases hother : other = name
  · subst hother
    rw [if_pos rfl, Option.some_inj] at hget
    have hold : flag ((t.get? other).getD new) = true ↔
        ∃ y ∈ uses, y.name? = some other ∧ p y = true := by
      cases hentry : t.get? other with
      | some old => exact hflag other old hentry
      | none =>
        have hunknown : other ∉ t.names := by
          rw [← t.knows_iff, UsageTable.knows, hentry]
          simp
        rw [h.mem_names_iff] at hunknown
        simp only [Option.getD_none, hnew, Bool.false_eq_true, false_iff]
        exact fun ⟨y, hy, hyname, _⟩ => hunknown ⟨hname, y, hy, hyname⟩
    rw [← hget, hchange, Bool.or_eq_true, hold]
    simp [hx]
  · rw [if_neg hother] at hget
    rw [hflag other u hget]
    refine (or_iff_left fun hp => hother ?_).symm
    exact (Option.some_inj.1 (hx.symm.trans hp.1)).symm

/-- A use of a name adds what it means for the name, and keeps what others mean. -/
theorem update (h : Tells rules model uses t) {x : NameUse} {name : Text}
    (hx : x.name? = some name) (hname : name ≠ []) {new : Usage}
    (hnew : new.isEligible = false ∧ new.isBlocked = false ∧ new.isProperty = false)
    {change : Usage → Usage}
    (hchange : ∀ u, (change u).isEligible = (u.isEligible || x.allows rules) ∧
      (change u).isBlocked = (u.isBlocked || x.blocks rules model) ∧
      (change u).isProperty = (u.isProperty || x.isProperty)) :
    Tells rules model (uses ++ [x]) (t.update name new change) where
  nodup := UsageTable.nodup_names_update h.nodup name new change
  mem_names_iff other := by
    rw [UsageTable.mem_names_update, h.mem_names_iff]
    have hmem : (∃ y ∈ uses ++ [x], y.name? = some other) ↔
        (∃ y ∈ uses, y.name? = some other) ∨ other = name := by
      simp [or_and_right, exists_or, hx, eq_comm]
    rw [hmem]
    constructor
    · rintro (rfl | ⟨hother, hused⟩)
      · exact ⟨hname, .inr rfl⟩
      · exact ⟨hother, .inl hused⟩
    · rintro ⟨hother, hused | rfl⟩
      · exact .inr ⟨hother, hused⟩
      · exact .inl rfl
  isEligible_iff _ _ :=
    h.flag_update h.isEligible_iff hx hname hnew.1 fun u => (hchange u).1
  isBlocked_iff _ _ :=
    h.flag_update h.isBlocked_iff hx hname hnew.2.1 fun u => (hchange u).2.1
  isProperty_iff _ _ :=
    h.flag_update h.isProperty_iff hx hname hnew.2.2 fun u => (hchange u).2.2

/-- One more use whose name is entered as used. -/
private theorem use (h : Tells rules model uses t) {x : NameUse} {name : Text}
    (hx : x.name? = some name) {kind : SymbolKind} {eligible : Bool}
    (hallows : x.allows rules = (eligible && !rules.isIgnored name && isRenameable name kind))
    (hblocks : x.blocks rules model = !x.allows rules) (hproperty : x.isProperty = false) :
    Tells rules model (uses ++ [x]) (Renaming.use rules name kind eligible t) := by
  by_cases hname : name = []
  · subst hname
    exact h.skip fun other hother => (Option.some_inj.1 (hx.symm.trans hother)).symm
  · have hempty : name.isEmpty = false := by simpa using hname
    rw [Renaming.use, if_neg (by simp [hempty])]
    refine h.update hx hname ⟨rfl, rfl, rfl⟩ fun u => ⟨?_, ?_, ?_⟩
    · rw [hallows]
    · rw [hblocks, hallows]
    · rw [hproperty, Bool.or_false]

/-- One more reference: the name of someone else is entered as used, without leave to replace it;
one that the model defines is only made known. -/
private theorem refer (h : Tells rules model uses t) {x : NameUse} {name : Text}
    (hx : x.name? = some name) {kind : SymbolKind} {inModel : Bool}
    (hallows : x.allows rules = false) (hblocks : x.blocks rules model = !inModel)
    (hproperty : x.isProperty = false) :
    Tells rules model (uses ++ [x]) (Renaming.refer rules name kind inModel t) := by
  by_cases hname : name = []
  · subst hname
    exact h.skip fun other hother => (Option.some_inj.1 (hx.symm.trans hother)).symm
  · have hempty : name.isEmpty = false := by simpa using hname
    rw [Renaming.refer, if_neg (by simp [hempty])]
    cases inModel with
    -- what the model does not define is used in a way that blocks it
    | false => exact h.use hx (by simp [hallows]) (by simp [hblocks, hallows]) hproperty
    | true =>
      refine h.update hx hname ⟨rfl, rfl, rfl⟩ fun u => ⟨?_, ?_, ?_⟩
      · simp [hallows]
      · simp [hblocks]
      · simp [hproperty]

/-- One more use for a property, which is marked as such. -/
private theorem property (h : Tells rules model uses t) (owner : Owner) (name : Text) :
    Tells rules model (uses ++ [.property owner name])
      (Renaming.record rules model t (.property owner name)) := by
  by_cases hname : name = []
  · subst hname
    -- the empty name is never known, so nothing is marked
    have hunknown : ¬t.knows [] = true := by
      rw [t.knows_iff, h.mem_names_iff]
      exact fun hknown => hknown.1 rfl
    have hsame : Renaming.record rules model t (.property owner []) = t := by
      simp [Renaming.record, Renaming.use, hunknown]
    rw [hsame]
    exact h.skip fun other hother => (Option.some_inj.1 hother).symm
  · have hempty : name.isEmpty = false := by simpa using hname
    have hknown (new : Usage) (change : Usage → Usage) :
        (t.update name new change).knows name = true := by
      rw [UsageTable.knows_iff, UsageTable.mem_names_update]
      exact .inl rfl
    -- entering the name and marking it are one change of its entry
    simp only [Renaming.record, Renaming.use, hempty, Bool.false_eq_true, if_false, hknown, if_true,
      UsageTable.update_update]
    refine h.update rfl hname ⟨rfl, rfl, rfl⟩ fun u => ⟨?_, ?_, ?_⟩
    · simp [NameUse.allows, NameUse.isMemberName, isRenameable, SymbolKind.isMember,
        Bool.and_assoc, Bool.and_left_comm]
    · simp [NameUse.blocks, NameUse.isMemberName, isRenameable, SymbolKind.isMember,
        Bool.or_assoc, Bool.or_left_comm]
    · simp [NameUse.isProperty]

/-- One more use. -/
theorem record (h : Tells rules model uses t) (x : NameUse) :
    Tells rules model (uses ++ [x]) (Renaming.record rules model t x) := by
  cases x with
  | entity owner =>
    refine h.use rfl ?_ rfl rfl
    have hkind : isRenameable owner.name owner.symbolKind = true := by
      rcases owner with ⟨_ | _ | _, _, _⟩ <;> rfl
    rw [hkind, Bool.and_true]
    cases hignored : rules.isIgnored owner.name <;>
      simp [NameUse.allows, Owner.mayRename, Renaming.mayRename, hignored]
  | ivar owner name =>
    refine h.use rfl ?_ ?_ rfl
    · simp [NameUse.allows, isRenameable, SymbolKind.isMember]
    · simp [NameUse.allows, NameUse.blocks]
  | selectorPiece owner name =>
    refine h.use rfl ?_ ?_ rfl
    · simp [NameUse.allows, NameUse.isMemberName, isRenameable, SymbolKind.isMember,
        Bool.and_assoc, Bool.and_left_comm]
    · simp [NameUse.allows, NameUse.blocks, Bool.or_assoc]
  | property owner name => exact h.property owner name
  | backingIvar name => exact h.use rfl rfl rfl rfl
  | reference ref =>
    cases ref with
    | ofClass name => exact h.refer rfl rfl rfl rfl
    | ofProtocol name => exact h.refer rfl rfl rfl rfl
    | ofMember name => exact h.refer rfl rfl rfl rfl
    | ofTag name =>
      by_cases hname : name = Text.ofString "?"
      · rw [Renaming.record, referIn, if_pos hname]
        exact h.skip fun other hother => by simp [NameUse.name?, Reference.name?, hname] at hother
      · rw [Renaming.record, referIn, if_neg hname]
        exact h.refer (by simp [NameUse.name?, Reference.name?, hname]) rfl rfl rfl

/-- All uses, one after the other. -/
theorem foldl_record (more : List NameUse) (h : Tells rules model uses t) :
    Tells rules model (uses ++ more) (more.foldl (Renaming.record rules model) t) := by
  induction more generalizing uses t with
  | nil => simpa using h
  | cons x rest ih =>
    have hrest := ih (h.record x)
    rwa [List.append_assoc, List.singleton_append] at hrest

end Tells

end Renaming

end ObjcLens
