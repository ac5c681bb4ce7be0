import Mathlib
import ObjcLens.Proofs.Except
import ObjcLens.Proofs.Model.WalkOrder

/-!
# Visits of entities

A walk visits one entity after the other. The names of a model may repeat here: every entity still
has a block in the plan of a walk, and nothing else has one, although a category can have several.

What looks at a walk sees a block from its first event to its last one. If the first event makes it
forget the block before, then it forgets whatever it saw before the walk.

## Main results

* `WalkPlan.mem_blocks_iff`: the entities of a model are those that have blocks.
* `Model.walkIn_eq_ok`: a walk in a scope visits the visible entities by plan.
* `Model.exists_events_of_walkIn`: so does every walk that succeeds.
* `WalkPlan.foldl_events_alike`: what an observer keeps does not depend on what it saw before.
-/

namespace ObjcLens

namespace Block

/-- The event that starts a block. -/
def enter : Block → Event
  | .ofProtocol p => .enterProtocol p
  | .ofClass c => .enterClass c
  | .ofCategory k => .enterCategory k

/-- The event that ends a block. -/
def leave : Block → Event
  | .ofProtocol p => .leaveProtocol p
  | .ofClass c => .leaveClass c
  | .ofCategory k => .leaveCategory k

/-- What stands between the start and the end of a block. -/
def members : Block → List Event
  | .ofProtocol p => p.members
  | .ofClass c => c.members
  | .ofCategory k => k.members

/-- A block is its opening event, its members in order and its closing event. -/
theorem events_eq (b : Block) : b.events = b.enter :: (b.members ++ [b.leave]) := by
  cases b <;> rfl

/-- Members are instance variables, methods and properties. Only protocols have methods that they
leave to their adopters. -/
theorem forall_mem_members {P : Event → Prop} (b : Block) (ivar : ∀ v, P (.ivar v))
    (method : ∀ m isOptional, (isOptional = true → ∃ p, b = .ofProtocol p) →
      P (.method m isOptional))
    (property : ∀ p ofClass, P (.property p ofClass)) : ∀ e ∈ b.members, P e := by
  have hmethods (isOptional : Bool) (h : isOptional = true → ∃ p, b = .ofProtocol p)
      (ms : List Method) : ∀ e ∈ Event.methods isOptional ms, P e := by
    intro e he
    obtain ⟨m, -, rfl⟩ := List.mem_map.1 he
    exact method m isOptional h
  have hproperties (ofClass : Bool) (ps : List Property) :
      ∀ e ∈ Event.properties ofClass ps, P e := by
    intro e he
    obtain ⟨p, -, rfl⟩ := List.mem_map.1 he
    exact property p ofClass
  have hrequired : false = true → ∃ p, b = .ofProtocol p := fun h => nomatch h
  cases b with
  | ofProtocol p =>
    have hoptional : true = true → ∃ q, Block.ofProtocol p = .ofProtocol q := fun _ => ⟨p, rfl⟩
    simp only [members, Protocol.members, List.forall_mem_append]
    exact ⟨⟨⟨⟨⟨hmethods false hrequired _, hmethods false hrequired _⟩, hmethods true hoptional _⟩,
      hmethods true hoptional _⟩, hproperties true _⟩, hproperties false _⟩
  | ofClass c =>
    simp only [members, Class.members, List.forall_mem_append, List.forall_mem_map]
    exact ⟨⟨⟨⟨fun v _ => ivar v, hmethods false hrequired _⟩, hmethods false hrequired _⟩,
      hproperties true _⟩, hproperties false _⟩
  | ofCategory k =>
    simp only [members, Category.members, List.forall_mem_append]
    exact ⟨⟨⟨hmethods false hrequired _, hmethods false hrequired _⟩, hproperties true _⟩,
      hproperties false _⟩

end Block

namespace WalkPlan

variable {m : Model}

/-- The categories visited with a class are the model's categories of that name. -/
theorem mem_categoriesOf_iff (plan : WalkPlan m) (name : Text) (k : Category) :
    k ∈ plan.categoriesOf name ↔ k ∈ m.categories ∧ k.className = name := by
  rw [(plan.categoriesOf_sorted name).perm.mem_iff, List.mem_filter, decide_eq_true_eq]

/-- The orphans are the categories whose class the model does not list. -/
theorem mem_orphans_iff (plan : WalkPlan m) (k : Category) :
    k ∈ plan.orphans ↔ k ∈ m.categories ∧ k.className ∉ m.classNames := by
  rw [plan.orphans_sorted.perm.mem_iff, List.mem_filter, decide_eq_true_eq]

/-- The entities of a model are those that have blocks. -/
theorem mem_blocks_iff (plan : WalkPlan m) (b : Block) : b ∈ plan.blocks ↔ b ∈ m.blocks := by
  cases b with
  | ofProtocol p =>
    simp [blocks, Model.blocks, plan.protocols_sorted.perm.mem_iff]
  | ofClass c =>
    simp [blocks, Model.blocks, plan.classes_sorted.perm.mem_iff]
  | ofCategory k =>
    have hplan : .ofCategory k ∈ plan.blocks ↔
        (∃ c ∈ m.classes, k ∈ plan.categoriesOf c.name) ∨ k ∈ plan.orphans := by
      simp [blocks, plan.classes_sorted.perm.mem_iff]
    have hmodel : .ofCategory k ∈ m.blocks ↔ k ∈ m.categories := by
      simp [Model.blocks]
    rw [hplan, hmodel, mem_orphans_iff]
    simp only [mem_categoriesOf_iff]
    constructor
    · rintro (⟨c, -, hk, -⟩ | ⟨hk, -⟩)
      · exact hk
      · exact hk
    · intro hk
      by_cases hclass : k.className ∈ m.classNames
      · -- a category of a class in the model stands behind that class
        obtain ⟨c, hc, hname⟩ := List.mem_map.1 hclass
        exact .inl ⟨c, hc, hk, hname.symm⟩
      · exact .inr ⟨hk, hclass⟩

/-- A plan asks only whether entities of the model are visible. -/
theorem events_eq_of_forall_mem (plan : WalkPlan m) {visible visible' : Entity → Bool}
    (h : ∀ e ∈ m.entities, visible e = visible' e) :
    plan.events visible = plan.events visible' := by
  have hblocks : ∀ b ∈ plan.blocks, visible b.entity = visible' b.entity := by
    intro b hb
    apply h
    rw [← m.map_entity_blocks]
    exact List.mem_map_of_mem ((plan.mem_blocks_iff b).1 hb)
  rw [events, events, Block.seen, Block.seen, List.filter_congr hblocks]

/-- The visits of a walk in order. -/
def visits (plan : WalkPlan m) (visible : Entity → Bool) : List Block :=
  plan.blocks.filter (visible ·.entity)

/-- The entities that are visited are the visible ones of the model. -/
theorem mem_visits_iff (plan : WalkPlan m) (visible : Entity → Bool) (b : Block) :
    b ∈ plan.visits visible ↔ b ∈ m.blocks ∧ visible b.entity = true := by
  rw [visits, List.mem_filter, plan.mem_blocks_iff]

/-- The events of a plan are those of its visits, between the start and the finish. -/
theorem events_eq_visits (plan : WalkPlan m) (visible : Entity → Bool) :
    plan.events visible = .start :: ((plan.visits visible).flatMap Block.events ++ [.finish]) :=
  rfl

end WalkPlan

/-- A walk in a scope visits the visible entities by plan. -/
theorem Model.walkIn_eq_ok {m : Model} {scope : Scope} {force : List Glob}
    (hforce : Scope.compileAll "force pattern" scope.force = .ok force) {visible : Entity → Bool}
    (hvisible : ∀ e ∈ m.entities, Scope.sees scope.keep force e = some (visible e)) :
    m.walkIn scope = .ok (m.plan.events visible) := by
  have hseen : ∀ e ∈ m.entities, (m.entities.filter visible).contains e = visible e := by
    intro e he
    rw [Bool.eq_iff_iff]
    simp [he]
  rw [walkIn, hforce, Except.ok_bind, filterM_eq_some hvisible]
  show Except.ok (m.walk fun e => (m.entities.filter visible).contains e) = _
  rw [walk_eq_events, m.plan.events_eq_of_forall_mem hseen]

/-- What a walk in a scope sees are the blocks of some of the entities, by plan. -/
theorem Model.exists_events_of_walkIn {m : Model} {scope : Scope} {events : List Event}
    (h : m.walkIn scope = .ok events) :
    ∃ visible : Entity → Bool, events = m.plan.events visible := by
  obtain ⟨force, -, h⟩ := Except.bind_eq_ok_iff.1 h
  cases hseen : m.entities.filterM (Scope.sees scope.keep force) with
  | none =>
    rw [hseen] at h
    cases h
  | some seen =>
    rw [hseen] at h
    cases h
    exact ⟨fun e => seen.contains e, m.walk_eq_events _⟩

section Observer

variable {σ : Type} {see : σ → Event → σ} {Alike : σ → σ → Prop} (hrefl : ∀ s, Alike s s)
  (henter : ∀ (b : Block) (s s' : σ), Alike s s' → see s b.enter = see s' b.enter)
include hrefl henter

/-- An observer that starts anew with every block keeps nothing of what it saw before, but for what
stays alike. -/
theorem foldl_blocks_alike (bs : List Block) {s s' : σ} (h : Alike s s') :
    Alike ((bs.flatMap Block.events).foldl see s) ((bs.flatMap Block.events).foldl see s') := by
  cases bs with
  | nil => exact h
  | cons b rest =>
    -- behind the first event the two are the same
    rw [List.flatMap_cons, Block.events_eq, List.cons_append, List.foldl_cons, List.foldl_cons,
      henter b s s' h]
    exact hrefl _

/-- If the start of a walk makes two such observers alike, they are alike where it ends. -/
theorem WalkPlan.foldl_events_alike {m : Model} (plan : WalkPlan m) (visible : Entity → Bool)
    {s s' : σ} (hstart : Alike (see s .start) (see s' .start)) :
    ∃ t t', Alike t t' ∧ (plan.events visible).foldl see s = see t .finish ∧
      (plan.events visible).foldl see s' = see t' .finish := by
  have hlast (s : σ) : (plan.events visible).foldl see s =
      see (((plan.visits visible).flatMap Block.events).foldl see (see s .start)) .finish := by
    rw [plan.events_eq_visits, List.foldl_cons, List.foldl_append, List.foldl_cons, List.foldl_nil]
  exact ⟨_, _, foldl_blocks_alike hrefl henter (plan.visits visible) hstart, hlast s, hlast s'⟩

end Observer

end ObjcLens
