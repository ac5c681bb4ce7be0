import Mathlib
import ObjcLens.Attempt

/-!
# Calls that may crash

A sequence of calls returns if every call does, and crashes if one of them does.

## Main results

* `Attempt.map_eq_returned_iff`, `Attempt.bind_eq_returned_iff`: every call returns.
* `Attempt.mapM_eq_returned_iff`, `Attempt.mapM_eq_crashed_iff`: the calls for a list.
-/

namespace ObjcLens

namespace Attempt

variable {α β : Type}

/-- What was returned, as an equation. -/
theorem returned?_eq_some_iff {x : Attempt α} {a : α} :
    x.returned? = some a ↔ x = .returned a := by
  cases x <;> simp [returned?]

/-- A result that is changed is there if and only if the call returns. -/
theorem map_eq_returned_iff {x : Attempt α} {f : α → β} {b : β} :
    f <$> x = .returned b ↔ ∃ a, x = .returned a ∧ f a = b := by
  cases x <;> simp

/-- Two calls in a row return if and only if both do. -/
theorem bind_eq_returned_iff {x : Attempt α} {f : α → Attempt β} {b : β} :
    (x >>= f) = .returned b ↔ ∃ a, x = .returned a ∧ f a = .returned b := by
  cases x <;> simp

/-- A call either crashes or returns. -/
theorem ne_crashed_iff {x : Attempt α} : x ≠ .crashed ↔ ∃ a, x = .returned a := by
  cases x <;> simp

/-- The calls for a list return if each of them does. -/
theorem mapM_eq_returned_iff {f : α → Attempt β} {l : List α} {r : List β} :
    l.mapM f = .returned r ↔ List.Forall₂ (fun a b => f a = .returned b) l r := by
  induction l generalizing r with
  | nil => simp [eq_comm]
  | cons a rest ih =>
    rw [List.mapM_cons, bind_eq_returned_iff, List.forall₂_cons_left_iff]
    constructor
    · rintro ⟨b, hb, h⟩
      obtain ⟨bs, hbs, hr⟩ := bind_eq_returned_iff.1 h
      exact ⟨b, bs, hb, ih.1 hbs, (Attempt.returned.inj hr).symm⟩
    · rintro ⟨b, bs, hb, hbs, rfl⟩
      exact ⟨b, hb, bind_eq_returned_iff.2 ⟨bs, ih.2 hbs, rfl⟩⟩

/-- The calls for a list crash if one of them does. -/
theorem mapM_eq_crashed_iff {f : α → Attempt β} {l : List α} :
    l.mapM f = .crashed ↔ ∃ a ∈ l, f a = .crashed := by
  induction l with
  | nil => simp
  | cons a rest ih =>
    rw [List.mapM_cons, List.exists_mem_cons_iff]
    cases ha : f a with
    | crashed => simp
    | returned b =>
      rw [← ih]
      cases rest.mapM f <;> simp

end Attempt

end ObjcLens
