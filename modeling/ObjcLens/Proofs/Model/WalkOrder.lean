import Mathlib
import ObjcLens.Proofs.Model.Sorted
import ObjcLens.Proofs.Renaming.Use

/-!
# The order of a walk

A walk sees an entity as a block: its start, its members and its end. A `WalkPlan` says in which
order the blocks of a model come; each of its lists carries the proof that it is a stable sort of
what it should hold.

## Main results

* `WalkPlan.eq`: a model has one plan only.
* `WalkPlan.blocks_perm`: where class names are distinct, every entity has one block.
* `walkIn_eq_events`: a walk in a scope sees the blocks of the visible entities, by plan.
-/

namespace ObjcLens

section Filter

variable {α : Type}

/-- A test that always answers makes the monadic filter the plain one. -/
private theorem filterAuxM_eq_some {test : α → Option Bool} {p : α → Bool} {xs : List α}
    (h : ∀ x ∈ xs, test x = some (p x)) (acc : List α) :
    List.filterAuxM test xs acc = some ((xs.filter p).reverse ++ acc) := by
  induction xs generalizing acc with
  | nil => rfl
  | cons x rest ih =>
    have hrest : ∀ y ∈ rest, test y = some (p y) := fun y hy => h y (List.mem_cons_of_mem x hy)
    rw [List.filterAuxM, h x List.mem_cons_self]
    cases hx : p x with
    | true => simp [ih hrest, hx]
    | false => simp [ih hrest, hx]

/-- Where a test always has an answer, filtering by it does. -/
theorem filterM_eq_some {test : α → Option Bool} {p : α → Bool} {xs : List α}
    (h : ∀ x ∈ xs, test x = some (p x)) : xs.filterM test = some (xs.filter p) := by
  rw [List.filterM, filterAuxM_eq_some h]
  simp

/-- One element without an answer leaves the whole filter without one. -/
private theorem filterAuxM_eq_none {test : α → Option Bool} {xs : List α} {x : α} (hx : x ∈ xs)
    (h : test x = none) (acc : List α) : List.filterAuxM test xs acc = none := by
  induction xs generalizing acc with
  | nil => simp at hx
  | cons y rest ih =>
    rw [List.filterAuxM]
    cases hy : test y with
    | none => rfl
    | some b =>
      have hrest : x ∈ rest := by
        rcases List.mem_cons.1 hx with rfl | hrest
        · simp [h] at hy
        · exact hrest
      exact ih hrest _

/-- Where a test has no answer for some element, filtering by it has none. -/
theorem filterM_eq_none {test : α → Option Bool} {xs : List α} {x : α} (hx : x ∈ xs)
    (h : test x = none) : xs.filterM test = none := by
  rw [List.filterM, filterAuxM_eq_none hx h]
  rfl

/-- The groups of a list by distinct keys, and the rest of it, are the whole list. -/
theorem flatMap_filter_append_perm {κ : Type} [DecidableEq κ] (key : α → κ) {keys : List κ}
    (hnodup : keys.Nodup) {isLeft : α → Bool} (hleft : ∀ x, isLeft x = true ↔ key x ∉ keys)
    (xs : List α) :
    ((keys.flatMap fun k => xs.filter fun x => key x = k) ++ xs.filter isLeft).Perm xs := by
  induction keys generalizing xs isLeft with
  | nil =>
    have hall : xs.filter isLeft = xs := List.filter_eq_self.2 fun x _ => by simp [hleft]
    simp [hall]
  | cons k rest ih =>
    obtain ⟨hk, hrest⟩ := List.nodup_cons.1 hnodup
    let others := xs.filter fun x => !decide (key x = k)
    -- the other groups do not change if the group of the first key is taken away
    have hgroups : (rest.flatMap fun k' => xs.filter fun x => key x = k') =
        rest.flatMap fun k' => others.filter fun x => key x = k' := by
      refine List.flatMap_congr fun k' hk' => ?_
      rw [List.filter_filter]
      refine List.filter_congr fun x _ => ?_
      have hne : k' ≠ k := fun h => hk (h ▸ hk')
      by_cases hx : key x = k'
      · simp [hx, hne]
      · simp [hx]
    have hothers : xs.filter isLeft = others.filter fun x => isLeft x || decide (key x = k) := by
      rw [List.filter_filter]
      refine List.filter_congr fun x _ => ?_
      by_cases hxk : key x = k
      · have hx : isLeft x = false := by
          rw [← Bool.not_eq_true, hleft]
          simp [hxk]
        simp [hxk, hx]
      · simp [hxk]
    have hleftRest (x : α) : (isLeft x || decide (key x = k)) = true ↔ key x ∉ rest := by
      rw [Bool.or_eq_true, hleft, decide_eq_true_eq, List.mem_cons, not_or]
      constructor
      · rintro (⟨-, hx⟩ | rfl)
        · exact hx
        · exact hk
      · intro hx
        by_cases hxk : key x = k
        · exact .inr hxk
        · exact .inl ⟨hxk, hx⟩
    rw [List.flatMap_cons, List.append_assoc, hgroups, hothers]
    exact ((ih hrest hleftRest others).append_left _).trans
      (List.filter_append_perm (fun x => decide (key x = k)) xs)

end Filter

/-- What a walk sees as a whole. -/
inductive Block where
  /-- A protocol. -/
  | ofProtocol (p : Protocol)
  /-- A class. -/
  | ofClass (c : Class)
  /-- A category. -/
  | ofCategory (k : Category)

namespace Block

/-- What a filter gets to know. -/
def entity : Block → Entity
  | .ofProtocol p => ⟨.ofProtocol, p.name, []⟩
  | .ofClass c => ⟨.ofClass, c.name, []⟩
  | .ofCategory k => ⟨.ofCategory, k.key, k.className⟩

/-- The start, the members in order, and the end. -/
def events : Block → List Event
  | .ofProtocol p => .enterProtocol p :: (p.members ++ [.leaveProtocol p])
  | .ofClass c => .enterClass c :: (c.members ++ [.leaveClass c])
  | .ofCategory k => .enterCategory k :: (k.members ++ [.leaveCategory k])

/-- The events of the visible blocks. -/
def seen (visible : Entity → Bool) (bs : List Block) : List Event :=
  (bs.filter (visible ·.entity)).flatMap events

section Seen

variable (visible : Entity → Bool)

theorem seen_append (bs bs' : List Block) :
    seen visible (bs ++ bs') = seen visible bs ++ seen visible bs' := by
  rw [seen, List.filter_append, List.flatMap_append]
  rfl

theorem seen_cons (b : Block) (bs : List Block) :
    seen visible (b :: bs) = (if visible b.entity then b.events else []) ++ seen visible bs := by
  rw [seen, List.filter_cons]
  split <;> rfl

theorem seen_flatMap {α : Type} (f : α → List Block) (xs : List α) :
    seen visible (xs.flatMap f) = xs.flatMap fun x => seen visible (f x) := by
  induction xs with
  | nil => rfl
  | cons x rest ih => rw [List.flatMap_cons, seen_append, ih, List.flatMap_cons]

theorem seen_map {α : Type} (f : α → Block) (xs : List α) :
    seen visible (xs.map f) =
      xs.flatMap fun x => if visible (f x).entity then (f x).events else [] := by
  induction xs with
  | nil => rfl
  | cons x rest ih => rw [List.map_cons, seen_cons, ih, List.flatMap_cons]

end Seen

end Block

/-- The block that an event starts. -/
def Event.starts? : Event → Option Block
  | .enterProtocol p => some (.ofProtocol p)
  | .enterClass c => some (.ofClass c)
  | .enterCategory k => some (.ofCategory k)
  | _ => none

/-- A block starts once. -/
theorem Block.filterMap_starts?_events (b : Block) : b.events.filterMap Event.starts? = [b] := by
  have hivars (vs : List Ivar) : (vs.map Event.ivar).filterMap Event.starts? = [] := by
    simp [List.filterMap_map, Function.comp_def, Event.starts?]
  have hmethods (isOptional : Bool) (ms : List Method) :
      (Event.methods isOptional ms).filterMap Event.starts? = [] := by
    simp [Event.methods, List.filterMap_map, Function.comp_def, Event.starts?]
  have hproperties (ofClass : Bool) (ps : List Property) :
      (Event.properties ofClass ps).filterMap Event.starts? = [] := by
    simp [Event.properties, List.filterMap_map, Function.comp_def, Event.starts?]
  cases b with
  | ofProtocol p =>
    simp only [events, Protocol.members, List.filterMap_cons, List.filterMap_append, hmethods,
      hproperties]
    rfl
  | ofClass c =>
    simp only [events, Class.members, List.filterMap_cons, List.filterMap_append, hivars, hmethods,
      hproperties]
    rfl
  | ofCategory k =>
    simp only [events, Category.members, List.filterMap_cons, List.filterMap_append, hmethods,
      hproperties]
    rfl

namespace Model

/-- The names of the classes of a model. -/
def classNames (m : Model) : List Text := m.classes.map (·.name)

/-- A model has a class exactly when it lists a class of that name. -/
theorem hasClass_eq (m : Model) (name : Text) : m.hasClass name = decide (name ∈ m.classNames) := by
  rw [Bool.eq_iff_iff]
  simp [hasClass, class?, classNames]

/-- The entities of a model, as its lists have them. -/
def blocks (m : Model) : List Block :=
  m.protocols.map .ofProtocol ++ m.classes.map .ofClass ++ m.categories.map .ofCategory

/-- The blocks of a model stand for its entities, one each and in order. -/
theorem map_entity_blocks (m : Model) : m.blocks.map Block.entity = m.entities := by
  simp only [blocks, List.map_append, List.map_map]
  rfl

/-- The categories are walked in a stable order by class name and then by their own. -/
theorem sortedCategories_isStableSort (m : Model) :
    IsStableSort Category.place pairLe m.categories m.sortedCategories :=
  .mergeSort isOrder_pairLe m.categories

end Model

/-- The order in which the entities of a model are seen. -/
structure WalkPlan (m : Model) where
  /-- All protocols. -/
  protocols : List Protocol
  /-- All classes. -/
  classes : List Class
  /-- The categories of a class by its name. -/
  categoriesOf : Text → List Category
  /-- The categories of classes outside the model. -/
  orphans : List Category
  protocols_sorted : IsStableSort (·.name) Text.le m.protocols protocols
  classes_sorted : IsStableSort (·.name) Text.le m.classes classes
  categoriesOf_sorted : ∀ name, IsStableSort (·.name) Text.le
    (m.categories.filter fun k => k.className = name) (categoriesOf name)
  orphans_sorted : IsStableSort Category.place pairLe
    (m.categories.filter fun k => k.className ∉ m.classNames) orphans

namespace WalkPlan

variable {m : Model}

/-- The protocols, then the classes, each followed by its categories, then the categories of other
classes. -/
def blocks (plan : WalkPlan m) : List Block :=
  plan.protocols.map .ofProtocol ++
    (plan.classes.flatMap fun c =>
      .ofClass c :: (plan.categoriesOf c.name).map .ofCategory) ++
    plan.orphans.map .ofCategory

/-- The blocks of the visible entities, between the start and the end of a walk. -/
def events (plan : WalkPlan m) (visible : Entity → Bool) : List Event :=
  .start :: (Block.seen visible plan.blocks ++ [.finish])

/-- A model has one plan only. -/
theorem eq (plan plan' : WalkPlan m) : plan = plan' := by
  have hprotocols := plan.protocols_sorted.eq Text.isOrder_le plan'.protocols_sorted
  have hclasses := plan.classes_sorted.eq Text.isOrder_le plan'.classes_sorted
  have hcategories : plan.categoriesOf = plan'.categoriesOf := by
    ext1 name
    exact (plan.categoriesOf_sorted name).eq Text.isOrder_le (plan'.categoriesOf_sorted name)
  have horphans := plan.orphans_sorted.eq isOrder_pairLe plan'.orphans_sorted
  cases plan
  cases plan'
  simp_all

/-- The events start each visible block once, and no other. -/
theorem filterMap_starts?_events (plan : WalkPlan m) (visible : Entity → Bool) :
    (plan.events visible).filterMap Event.starts? =
      plan.blocks.filter (visible ·.entity) := by
  have hblocks (bs : List Block) : (bs.flatMap Block.events).filterMap Event.starts? = bs := by
    induction bs with
    | nil => rfl
    | cons b rest ih =>
      rw [List.flatMap_cons, List.filterMap_append, b.filterMap_starts?_events, ih]
      rfl
  rw [events, List.filterMap_cons, List.filterMap_append, Block.seen, hblocks]
  simp [Event.starts?]

/-- Classes and their categories may be listed apart. -/
private theorem flatMap_cons_map_perm (categoriesOf : Text → List Category) (cs : List Class) :
    (cs.flatMap fun c => Block.ofClass c :: (categoriesOf c.name).map .ofCategory).Perm
      (cs.map .ofClass ++ (cs.flatMap fun c => categoriesOf c.name).map .ofCategory) := by
  induction cs with
  | nil => exact .refl _
  | cons c rest ih =>
    rw [List.flatMap_cons, List.map_cons, List.flatMap_cons, List.map_append, List.cons_append,
      List.cons_append]
    refine List.Perm.cons _ ?_
    exact (ih.append_left _).trans (List.perm_append_comm_assoc _ _ _)

/-- Where class names are distinct, every entity has one block. -/
theorem blocks_perm (plan : WalkPlan m) (hnames : m.classNames.Nodup) :
    plan.blocks.Perm m.blocks := by
  have hcategories : ((plan.classes.flatMap fun c => plan.categoriesOf c.name) ++
      plan.orphans).Perm m.categories := by
    have hclasses : (plan.classes.flatMap fun c => plan.categoriesOf c.name).Perm
        (m.classNames.flatMap fun name => m.categories.filter fun k => k.className = name) := by
      rw [Model.classNames, List.flatMap_map]
      exact plan.classes_sorted.perm.flatMap fun c _ => (plan.categoriesOf_sorted c.name).perm
    exact (hclasses.append plan.orphans_sorted.perm).trans
      (flatMap_filter_append_perm Category.className hnames (fun k => by simp) m.categories)
  have hapart : plan.blocks.Perm (plan.protocols.map .ofProtocol ++ plan.classes.map .ofClass ++
      ((plan.classes.flatMap fun c => plan.categoriesOf c.name) ++ plan.orphans).map
        .ofCategory) := by
    have hclasses := flatMap_cons_map_perm plan.categoriesOf plan.classes
    simpa [blocks] using (hclasses.append_right _).append_left _
  exact hapart.trans (((plan.protocols_sorted.perm.map _).append
    (plan.classes_sorted.perm.map _)).append (hcategories.map _))

/-- Which entities are visible is asked for those of the model only. -/
theorem events_congr (plan : WalkPlan m) (hnames : m.classNames.Nodup)
    {visible visible' : Entity → Bool} (h : ∀ e ∈ m.entities, visible e = visible' e) :
    plan.events visible = plan.events visible' := by
  have hblocks : ∀ b ∈ plan.blocks, visible b.entity = visible' b.entity := by
    intro b hb
    refine h b.entity ?_
    rw [← m.map_entity_blocks]
    exact List.mem_map_of_mem ((plan.blocks_perm hnames).subset hb)
  rw [events, events, Block.seen, Block.seen, List.filter_congr hblocks]

end WalkPlan

namespace Model

/-- The order in which a walk sees the entities. -/
def plan (m : Model) : WalkPlan m where
  protocols := m.sortedProtocols
  classes := m.sortedClasses
  categoriesOf name := m.sortedCategories.filter fun k => k.className = name
  orphans := m.sortedCategories.filter fun k => k.className ∉ m.classNames
  protocols_sorted := .mergeSort Text.isOrder_le m.protocols
  classes_sorted := .mergeSort Text.isOrder_le m.classes
  categoriesOf_sorted name := by
    -- among the categories of one class only the names decide
    have hclass : ∀ k ∈ m.categories.filter fun k => k.className = name, k.place.1 = name := by
      intro k hk
      simpa [Category.place] using (List.mem_filter.1 hk).2
    exact (m.sortedCategories_isStableSort.filter fun k => k.className = name).snd hclass
  orphans_sorted := m.sortedCategories_isStableSort.filter _

/-- Visiting a protocol reports the events of its block. -/
theorem visitProtocol_eq (p : Protocol) : visitProtocol p = (Block.ofProtocol p).events := by
  simp [visitProtocol, Block.events, Protocol.members]

/-- Visiting a class reports the events of its block. -/
theorem visitClass_eq (c : Class) : visitClass c = (Block.ofClass c).events := by
  simp [visitClass, Block.events, Class.members]

/-- Visiting a category reports the events of its block. -/
theorem visitCategory_eq (k : Category) : visitCategory k = (Block.ofCategory k).events := by
  simp [visitCategory, Block.events, Category.members]

/-- A walk sees the visible entities by plan. -/
theorem walk_eq_events (m : Model) (visible : Entity → Bool) :
    m.walk visible = m.plan.events visible := by
  have horphan (k : Category) :
      (!m.hasClass k.className) = decide (k.className ∉ m.classNames) := by
    rw [hasClass_eq, decide_not]
  -- the walk and the plan visit the same blocks in the same order, each as its own events
  simp only [WalkPlan.events, WalkPlan.blocks, plan, Block.seen_append, Block.seen_flatMap,
    Block.seen_cons, Block.seen_map, ← visitProtocol_eq, ← visitClass_eq,
    ← visitCategory_eq, ← horphan, ← List.cons_append]
  rfl

/-- A walk in a scope sees the blocks of the visible entities, by plan. Each visible entity has
exactly one block. -/
theorem walkIn_eq_events {m : Model} (hnames : m.classNames.Nodup) {scope : Scope}
    {force : List Glob} (hforce : Scope.compileAll "force pattern" scope.force = .ok force)
    {visible : Entity → Bool}
    (hvisible : ∀ e ∈ m.entities, Scope.sees scope.keep force e = some (visible e)) :
    ∃ plan : WalkPlan m, m.walkIn scope = .ok (plan.events visible) ∧
      ((plan.events visible).filterMap Event.starts?).Perm
        (m.blocks.filter (visible ·.entity)) := by
  refine ⟨m.plan, ?_, ?_⟩
  -- the walk asks whether an entity is among the visible ones of the model, the plan asks the test
  · have hseen : ∀ e ∈ m.entities, (m.entities.filter visible).contains e = visible e := by
      intro e he
      rw [Bool.eq_iff_iff]
      simp [he]
    rw [walkIn, hforce]
    simp only [bind, Except.bind, filterM_eq_some hvisible]
    rw [walk_eq_events, m.plan.events_congr hnames hseen]
    rfl
  · rw [m.plan.filterMap_starts?_events]
    exact (m.plan.blocks_perm hnames).filter _

/-- Classes with and without categories, and a category of a class outside the model. -/
def sampleHerbarium : Model where
  classes := [{ name := "Root" }, { name := "Leaf" }]
  categories := [{ name := "Z", className := "Leaf" },
    { name := "Extras", className := "NSString" }, { name := "A", className := "Leaf" },
    { name := "B", className := "Root" }]
  protocols := [{ name := "Proto" }, { name := "Alpha" }]

/-- A filter that hides the class `Leaf` but not its categories, and a pattern for `Root`. -/
def sampleScope : Scope where
  keep := some fun e => some (e.name = ("Alpha" : Text) || e.className = ("Leaf" : Text))
  force := ["Ro*"]

/-- What the sample scope shows of the sample model. -/
def sampleVisible (e : Entity) : Bool :=
  e.name = ("Alpha" : Text) || e.className = ("Leaf" : Text) || e.name = ("Root" : Text) ||
    e.className = ("Root" : Text)

/-- The walk of a herbarium with classes, categories and an orphan, under a scope that hides a name.
-/
theorem walkIn_eq_events_sampleHerbarium :
    sampleHerbarium.classNames.Nodup ∧
      Scope.compileAll "force pattern" sampleScope.force = .ok [⟨.starting "Ro"⟩] ∧
      (∀ e ∈ sampleHerbarium.entities,
        Scope.sees sampleScope.keep [⟨.starting "Ro"⟩] e = some (sampleVisible e)) ∧
      ∃ plan : WalkPlan sampleHerbarium,
        sampleHerbarium.walkIn sampleScope = .ok (plan.events sampleVisible) ∧
          ((plan.events sampleVisible).filterMap Event.starts?).Perm
            (sampleHerbarium.blocks.filter (sampleVisible ·.entity)) :=
  ⟨by decide, rfl, by decide, walkIn_eq_events (by decide) rfl (by decide)⟩

end Model

end ObjcLens
