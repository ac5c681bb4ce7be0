import Mathlib
import ObjcLens.Model.Basic

/-!
# Superclasses

The superclasses of a class are found by looking up one name after the other. Nothing keeps a model
from having a class that is its own superclass, a longer cycle, or a superclass that it does not
define. `Ascends` says how the search goes on from a name and when it stops; a finished search is a
derivation, so that a search that went on for ever would have none.

A step of the search sees the superclass of some class for the first time. There are only so many
classes, and this bounds the number of steps.

## Main results

* `ascends_superclassesFrom`: the search ends if it has as many steps as there are classes.
* `Ascends.unique`: it has one result.
* `superclassChain_isMaximalPath`: what it finds is a path without repetitions that cannot go on.
-/

namespace ObjcLens.Model

/-- The class with the first name has the second one as its superclass. -/
def HasSuperclass (m : Model) (name superclass : Text) : Prop :=
  superclass ≠ [] ∧ ∃ c, m.class? name = some c ∧ c.superclass = superclass

/-- The search for superclasses, from a name on and with the names that were seen before, finds the
names of a list and ends. -/
inductive Ascends (m : Model) : List Text → Text → List Text → Prop
  /-- The name is that of a class outside the model. -/
  | outside {seen : List Text} {name : Text} (hclass : m.class? name = none) :
      Ascends m seen name []
  /-- The class has no superclass. -/
  | root {seen : List Text} {name : Text} {c : Class} (hclass : m.class? name = some c)
      (hroot : c.superclass = []) : Ascends m seen name []
  /-- The superclass was seen before. -/
  | cycle {seen : List Text} {name : Text} {c : Class} (hclass : m.class? name = some c)
      (hseen : c.superclass ∈ seen) : Ascends m seen name []
  /-- The superclass is found, and the search goes on from there. -/
  | step {seen rest : List Text} {name : Text} {c : Class} (hclass : m.class? name = some c)
      (hsome : c.superclass ≠ []) (hnew : c.superclass ∉ seen)
      (hrest : Ascends m (c.superclass :: seen) c.superclass rest) :
      Ascends m seen name (c.superclass :: rest)

variable {m : Model}

/-! ### The search ends -/

/-- The classes whose superclass was not seen. -/
def unseen (m : Model) (seen : List Text) : List Class :=
  m.classes.filter fun c => !seen.contains c.superclass

/-- The unseen classes are those whose superclass has not been passed yet. -/
theorem mem_unseen_iff {seen : List Text} {c : Class} :
    c ∈ m.unseen seen ↔ c ∈ m.classes ∧ c.superclass ∉ seen := by
  simp [unseen]

/-- A superclass that is seen for the first time leaves fewer that were not. -/
theorem length_unseen_lt {seen : List Text} {c : Class} (hc : c ∈ m.unseen seen) :
    (m.unseen (c.superclass :: seen)).length < (m.unseen seen).length := by
  have hsublist : (m.unseen (c.superclass :: seen)).Sublist (m.unseen seen) := by
    apply List.monotone_filter_right
    intro d hd
    rw [List.contains_cons, Bool.not_or, Bool.and_eq_true] at hd
    exact hd.2
  -- it is shorter, since the class itself is missing
  refine lt_of_le_of_ne hsublist.length_le fun hlength => ?_
  have hsame := hsublist.eq_of_length hlength
  rw [← hsame, mem_unseen_iff] at hc
  exact hc.2 List.mem_cons_self

/-- The search ends if it has a step for every superclass that was not seen. -/
theorem ascends_superclassesFrom {fuel : Nat} {seen : List Text}
    (hfuel : (m.unseen seen).length ≤ fuel) (name : Text) :
    m.Ascends seen name (m.superclassesFrom fuel seen name) := by
  induction fuel generalizing seen name with
  | zero =>
    rw [superclassesFrom]
    cases hclass : m.class? name with
    | none => exact .outside hclass
    | some c =>
      -- every superclass was seen, that of this class among them
      have hnone := List.length_eq_zero_iff.1 (Nat.le_zero.1 hfuel)
      have hc : c ∉ m.unseen seen := by simp [hnone]
      rw [mem_unseen_iff, not_and, not_not] at hc
      exact .cycle hclass (hc (List.mem_of_find?_eq_some hclass))
  | succ fuel ih =>
    rw [superclassesFrom]
    cases hclass : m.class? name with
    | none => exact .outside hclass
    | some c =>
      dsimp only
      split
      · rename_i hstop
        rw [Bool.or_eq_true, List.isEmpty_iff, List.contains_iff_mem] at hstop
        exact hstop.elim (.root hclass) (.cycle hclass)
      · rename_i hgo
        rw [Bool.or_eq_true, List.isEmpty_iff, List.contains_iff_mem, not_or] at hgo
        have hc : c ∈ m.unseen seen :=
          mem_unseen_iff.2 ⟨List.mem_of_find?_eq_some hclass, hgo.2⟩
        exact .step hclass hgo.1 hgo.2
          (ih (Nat.le_of_lt_succ ((length_unseen_lt hc).trans_le hfuel)) _)

/-- The search has a step for every class. -/
theorem ascends_superclassChain (m : Model) (name : Text) :
    m.Ascends [name] name (m.superclassChain name) :=
  ascends_superclassesFrom (List.length_filter_le _ _) name

/-- The walk up the hierarchy takes at most one name for each unit of fuel. -/
theorem length_superclassesFrom_le (m : Model) (fuel : Nat) (seen : List Text) (name : Text) :
    (m.superclassesFrom fuel seen name).length ≤ fuel := by
  induction fuel generalizing seen name with
  | zero => rfl
  | succ fuel ih =>
    rw [superclassesFrom]
    split
    · exact Nat.zero_le _
    · split
      · exact Nat.zero_le _
      · exact Nat.succ_le_succ (ih _ _)

/-! ### What the search finds -/

namespace Ascends

variable {seen chain : List Text} {name : Text}

/-- The search has one result: what it does next depends on the class with the name. -/
theorem unique {other : List Text} (h : m.Ascends seen name chain)
    (h' : m.Ascends seen name other) : chain = other := by
  induction h generalizing other with
  | outside hclass => cases h' <;> simp_all
  | root hclass hroot => cases h' <;> simp_all
  | cycle hclass hseen => cases h' <;> simp_all
  | step hclass hsome hnew _ ih =>
    cases h' with
    | outside hclass' => simp_all
    | root hclass' hroot => simp_all
    | cycle hclass' hseen => simp_all
    | step hclass' _ _ hrest' =>
      obtain rfl := Option.some.inj (hclass.symm.trans hclass')
      rw [ih hrest']

/-- Nothing is found twice, nor anything that was seen before. -/
theorem nodup (h : m.Ascends seen name chain) : chain.Nodup ∧ ∀ s ∈ chain, s ∉ seen := by
  induction h with
  | outside | root | cycle => simp
  | step _ _ hnew _ ih =>
    obtain ⟨hnodup, hfresh⟩ := ih
    refine ⟨List.nodup_cons.2 ⟨fun hmem => hfresh _ hmem List.mem_cons_self, hnodup⟩, ?_⟩
    rw [List.forall_mem_cons]
    exact ⟨hnew, fun s hs hseen => hfresh s hs (List.mem_cons_of_mem _ hseen)⟩

/-- Each name is that of the superclass of the class before. -/
theorem isChain (h : m.Ascends seen name chain) : List.IsChain m.HasSuperclass (name :: chain) := by
  induction h with
  | outside | root | cycle => exact .singleton _
  | step hclass hsome _ _ ih => exact .cons_cons ⟨hsome, _, hclass, rfl⟩ ih

/-- The search stops where there is no superclass, or none that is new. -/
theorem stops (h : m.Ascends seen name chain) {c : Class}
    (hclass : m.class? ((name :: chain).getLast (List.cons_ne_nil _ _)) = some c) :
    c.superclass = [] ∨ c.superclass ∈ seen ∨ c.superclass ∈ chain := by
  induction h with
  | outside hnone => simp_all
  | root hclass' hroot => simp_all
  | cycle hclass' hseen => simp_all
  | step _ _ _ _ ih =>
    rw [List.getLast_cons_cons] at hclass
    -- what was seen further up is the name itself, seen before it, or on the rest of the chain
    rcases ih hclass with hroot | hseen | hfound
    · exact .inl hroot
    · rcases List.mem_cons.1 hseen with heq | hseen
      · exact .inr (.inr (heq ▸ List.mem_cons_self))
      · exact .inr (.inl hseen)
    · exact .inr (.inr (List.mem_cons_of_mem _ hfound))

end Ascends

/-- Superclass chains are finite, simple and maximal paths, whatever cycles and gaps a model has.
The search ends, with this result only and after at most as many steps as there are classes. With
the name itself in front, the chain goes from each class to its superclass and repeats no name. It
ends at a class outside the model, at one without a superclass, or at one whose superclass stands in
the chain or is the name itself. -/
theorem superclassChain_isMaximalPath (m : Model) (name : Text) :
    (∀ chain, m.Ascends [name] name chain ↔ chain = m.superclassChain name) ∧
      (m.superclassChain name).length ≤ m.classes.length ∧
      (m.superclassChain name).Nodup ∧ name ∉ m.superclassChain name ∧
      List.IsChain m.HasSuperclass (name :: m.superclassChain name) ∧
      ∃ last, (name :: m.superclassChain name).getLast? = some last ∧
        (m.class? last = none ∨ ∃ c, m.class? last = some c ∧
          (c.superclass = [] ∨ c.superclass ∈ name :: m.superclassChain name)) := by
  have hascends := ascends_superclassChain m name
  obtain ⟨hnodup, hfresh⟩ := hascends.nodup
  refine ⟨fun chain => ?_, length_superclassesFrom_le _ _ _ _, hnodup, fun hmem => ?_,
    hascends.isChain, _, List.getLast?_eq_some_getLast (List.cons_ne_nil _ _), ?_⟩
  · constructor
    · intro hchain
      exact hchain.unique hascends
    · rintro rfl
      exact hascends
  · exact hfresh name hmem List.mem_cons_self
  · cases hclass : m.class? ((name :: m.superclassChain name).getLast (List.cons_ne_nil _ _)) with
    | none => exact .inl rfl
    | some c =>
      have hstops := hascends.stops hclass
      rw [List.mem_singleton] at hstops
      exact .inr ⟨c, rfl, by rwa [List.mem_cons]⟩

/-- A cycle of three classes is left where it would return to its start. -/
example :
    let m : Model := { classes := [
      { name := "A", superclass := "B" }, { name := "B", superclass := "C" },
      { name := "C", superclass := "A" }] }
    m.superclassChain "A" = [Text.ofString "B", Text.ofString "C"] ∧
      m.superclassChain "Missing" = [] := by
  decide +kernel

end ObjcLens.Model
