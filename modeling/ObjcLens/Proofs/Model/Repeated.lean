import Mathlib
import ObjcLens.Proofs.Model.Visits

/-!
# Categories of repeated classes

A model may list several classes of one name. A walk shows the categories of a class behind every
class that has its name, so it comes to such a category more than once.

## Main results

* `groups_append_perm`: the groups of a list by keys that may repeat.
* `visitedCategories_walkIn`: how often a walk without a filter visits each category.
* `category_of_repeated_class_visited_twice`: a category that is visited twice.
-/

namespace ObjcLens

section Groups

variable {α : Type}

/-- A list with every element as often as a number says is the list if all numbers are one. -/
theorem flatMap_replicate_perm_iff {times : α → Nat} (htimes : ∀ x, 1 ≤ times x) (xs : List α) :
    (xs.flatMap fun x => List.replicate (times x) x).Perm xs ↔ ∀ x ∈ xs, times x ≤ 1 := by
  constructor
  · intro hperm
    -- the numbers add up to the length of the list, and none of them is zero
    have hsum : (xs.map times).sum = xs.length := by
      simpa [List.length_flatMap] using hperm.length_eq
    induction xs with
    | nil => intro x hx; cases hx
    | cons x rest ih =>
      have hrest : rest.length ≤ (rest.map times).sum := by
        have hone : ∀ n ∈ rest.map times, 1 ≤ n := List.forall_mem_map.2 fun y _ => htimes y
        simpa using List.length_le_sum_of_one_le _ hone
      rw [List.map_cons, List.sum_cons, List.length_cons] at hsum
      have hx : times x = 1 := by
        have hpos := htimes x
        omega
      rw [List.flatMap_cons, hx] at hperm
      refine List.forall_mem_cons.2 ⟨hx.le, ih (List.Perm.cons_inv hperm) ?_⟩
      omega
  · intro hall
    have hself : (xs.flatMap fun x => List.replicate (times x) x) = xs.flatMap fun x => [x] := by
      refine List.flatMap_congr fun x hx => ?_
      rw [le_antisymm (hall x hx) (htimes x)]
      rfl
    rw [hself, List.flatMap_singleton']

private theorem filter_eq_flatMap_replicate (p : α → Bool) (xs : List α) :
    xs.filter p = xs.flatMap fun x => List.replicate (p x).toNat x := by
  induction xs with
  | nil => rfl
  | cons x rest ih =>
    rw [List.flatMap_cons, ← ih, List.filter_cons]
    cases p x <;> rfl

variable {κ : Type} [DecidableEq κ] [BEq κ] [LawfulBEq κ]

/-- An element is in the groups of a list as often as its key is among the keys. -/
private theorem groups_perm (key : α → κ) (keys : List κ) (xs : List α) :
    (keys.flatMap fun k => xs.filter fun x => key x = k).Perm
      (xs.flatMap fun x => List.replicate (keys.count (key x)) x) := by
  induction keys with
  | nil => simp
  | cons k rest ih =>
    -- one more key with the element's own puts it into one more group
    have hcount (x : α) : List.replicate ((k :: rest).count (key x)) x =
        List.replicate (decide (key x = k)).toNat x ++
          List.replicate (rest.count (key x)) x := by
      rw [List.replicate_append_replicate, List.count_cons, Nat.add_comm]
      by_cases hk : key x = k
      · simp [hk]
      · simp [hk, Ne.symm hk]
    simp only [hcount]
    rw [List.flatMap_cons, filter_eq_flatMap_replicate]
    exact (ih.append_left _).trans (List.flatMap_append_perm xs _ _)

/-- The groups of a list by keys that may repeat, and the rest of the list, hold an element as often
as its key is among the keys, and once if it is not. -/
theorem groups_append_perm (key : α → κ) (keys : List κ) (xs : List α) :
    ((keys.flatMap fun k => xs.filter fun x => key x = k) ++
        xs.filter fun x => key x ∉ keys).Perm
      (xs.flatMap fun x => List.replicate (max 1 (keys.count (key x))) x) := by
  -- an element of no key is in no group and comes last, once
  have hsplit (x : α) : List.replicate (max 1 (keys.count (key x))) x =
      List.replicate (keys.count (key x)) x ++
        List.replicate (decide (key x ∉ keys)).toNat x := by
    rw [List.replicate_append_replicate]
    by_cases hx : key x ∈ keys
    · have hpos : 0 < keys.count (key x) := List.count_pos_iff.2 hx
      simp [hx]
    · simp [hx, List.count_eq_zero_of_not_mem hx]
  simp only [hsplit]
  rw [filter_eq_flatMap_replicate]
  exact ((groups_perm key keys xs).append_right _).trans (List.flatMap_append_perm xs _ _)

end Groups

/-- The category that an event enters. -/
def Event.category? : Event → Option Category
  | .enterCategory k => some k
  | _ => none

/-- The category that a block is about. -/
def Block.category? : Block → Option Category
  | .ofCategory k => some k
  | _ => none

/-- The categories that a walk visits, each as often as it is entered. -/
def visitedCategories (events : List Event) : List Category := events.filterMap Event.category?

/-- The category an event announces is that of the block it opens. -/
theorem Event.category?_eq (e : Event) : e.category? = e.starts?.bind Block.category? := by
  cases e <;> rfl

namespace WalkPlan

variable {m : Model}

/-- Where everything is visible, a walk visits the categories of each class, and then the others. -/
theorem visitedCategories_events (plan : WalkPlan m) :
    visitedCategories (plan.events fun _ => true) =
      (plan.classes.flatMap fun c => plan.categoriesOf c.name) ++ plan.orphans := by
  have hclass (c : Class) :
      (Block.ofClass c :: (plan.categoriesOf c.name).map .ofCategory).filterMap Block.category? =
        plan.categoriesOf c.name := by
    simp [Block.category?, List.filterMap_cons, List.filterMap_map, Function.comp_def]
  calc visitedCategories (plan.events fun _ => true)
      = ((plan.events fun _ => true).filterMap Event.starts?).filterMap Block.category? := by
        rw [List.filterMap_filterMap]
        exact List.filterMap_congr fun e _ => e.category?_eq
    _ = plan.blocks.filterMap Block.category? := by
        rw [plan.filterMap_starts?_events, List.filter_true]
    _ = _ := by
        rw [blocks, List.filterMap_append, List.filterMap_append, List.filterMap_flatMap]
        simp only [hclass]
        simp [Block.category?, List.filterMap_map, Function.comp_def]

/-- A category is visited once for every class that has the name of its class, and once if there is
none. -/
theorem visitedCategories_perm (plan : WalkPlan m) :
    (visitedCategories (plan.events fun _ => true)).Perm
      (m.categories.flatMap fun k =>
        List.replicate (max 1 (m.classNames.count k.className)) k) := by
  have hclasses : (plan.classes.flatMap fun c => plan.categoriesOf c.name).Perm
      (m.classNames.flatMap fun name => m.categories.filter fun k => k.className = name) := by
    rw [Model.classNames, List.flatMap_map]
    exact plan.classes_sorted.perm.flatMap fun c _ => (plan.categoriesOf_sorted c.name).perm
  rw [visitedCategories_events]
  exact (hclasses.append plan.orphans_sorted.perm).trans
    (groups_append_perm Category.className m.classNames m.categories)

end WalkPlan

namespace Model

/-- Under the default scope every declaration is seen. -/
theorem sees_default (e : Entity) : Scope.sees ({} : Scope).keep [] e = some true := rfl

/-- A walk without a filter visits a category once for every class that has the name of its class,
and once if there is none. So it visits every category exactly once if and only if no category is of
a class whose name is that of another class too. -/
theorem visitedCategories_walkIn (m : Model) :
    ∃ events, m.walkIn {} = .ok events ∧
      (visitedCategories events).Perm
        (m.categories.flatMap fun k =>
          List.replicate (max 1 (m.classNames.count k.className)) k) ∧
      ((visitedCategories events).Perm m.categories ↔
        ∀ k ∈ m.categories, m.classNames.count k.className ≤ 1) := by
  have hwalk : m.walkIn {} = .ok (m.plan.events fun _ => true) :=
    walkIn_eq_ok rfl fun e _ => sees_default e
  have hperm := m.plan.visitedCategories_perm
  refine ⟨_, hwalk, hperm, ?_⟩
  have honce := flatMap_replicate_perm_iff
    (fun k : Category => Nat.le_max_left 1 (m.classNames.count k.className)) m.categories
  -- a category is visited once exactly if no more than one class has its class name
  simp only [max_le_iff, le_refl, true_and] at honce
  rw [← honce]
  exact ⟨hperm.symm.trans, hperm.trans⟩

/-- Two classes of one name, and a category of it. -/
def sampleTwins : Model where
  classes := [{ name := "Leaf" }, { name := "Leaf" }]
  categories := [{ name := "Extras", className := "Leaf" }]

/-- A category of a class that the model lists twice is visited once for each of the two, so the
visited categories are not a rearrangement of the model's. -/
theorem category_of_repeated_class_visited_twice :
    ∃ events, sampleTwins.walkIn {} = .ok events ∧
      (visitedCategories events).map Category.key = ["Leaf(Extras)", "Leaf(Extras)"] ∧
      ¬(visitedCategories events).Perm sampleTwins.categories := by
  have hwalk : sampleTwins.walkIn {} = .ok (sampleTwins.plan.events fun _ => true) :=
    walkIn_eq_ok rfl fun e _ => sees_default e
  have htwice : (visitedCategories (sampleTwins.plan.events fun _ => true)).map Category.key =
      ["Leaf(Extras)", "Leaf(Extras)"] := by
    cbv
  refine ⟨_, hwalk, htwice, ?_⟩
  intro hperm
  have hlength := (hperm.map Category.key).length_eq
  rw [htwice] at hlength
  exact absurd hlength (by decide)

end Model

end ObjcLens
