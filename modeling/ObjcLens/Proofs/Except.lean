import Mathlib

/-!
# Computations that may fail

A sequence of steps succeeds if every step does.

## Main results

* `Except.toOption_eq_some_iff`: a success is an option with a value.
* `Except.bind_eq_ok_iff`, `Except.mapM_eq_ok_iff`: every step succeeds.
* `Except.mapError_eq_ok_iff`: a change of the error leaves successes alone.
* `Except.ite_throw_eq_ok_iff`: a condition is refused.
* `Except.exists_of_mem_mapM`: the elements behind the results.
* `Except.EndsIn`: what is known of the result or of the error, step by step.
-/

/-- Of two lists whose elements are related, the second has one for every element of the first. -/
theorem List.Forall₂.exists_of_mem {α β : Type} {R : α → β → Prop} {l : List α} {r : List β}
    (h : List.Forall₂ R l r) {a : α} (ha : a ∈ l) : ∃ b ∈ r, R a b := by
  induction h with
  | nil => simp at ha
  | cons hab _ ih =>
    rcases List.mem_cons.1 ha with rfl | ha
    · exact ⟨_, List.mem_cons_self, hab⟩
    · obtain ⟨b, hb, hab⟩ := ih ha
      exact ⟨b, List.mem_cons_of_mem _ hb, hab⟩

namespace Except

variable {ε α β : Type}

/-- A result, as an equation. -/
theorem toOption_eq_some_iff {x : Except ε α} {a : α} : x.toOption = some a ↔ x = .ok a := by
  cases x <;> simp [Except.toOption]

theorem ok_bind (a : α) (f : α → Except ε β) : (.ok a >>= f) = f a := rfl

/-- Two steps in a row give a result if and only if both do. -/
theorem bind_eq_ok_iff {x : Except ε α} {f : α → Except ε β} {b : β} :
    (x >>= f) = .ok b ↔ ∃ a, x = .ok a ∧ f a = .ok b := by
  cases x with
  | error e => simp [bind, Except.bind]
  | ok a => simp [bind, Except.bind]

/-- To change the error of a step does not change its result. -/
theorem mapError_eq_ok_iff {ε' : Type} {f : ε → ε'} {x : Except ε α} {a : α} :
    x.mapError f = .ok a ↔ x = .ok a := by
  cases x <;> simp [Except.mapError]

/-- What follows a refusal is reached where nothing is refused. -/
theorem ite_throw_eq_ok_iff {c : Prop} [Decidable c] {e : ε} {f : α → Except ε β}
    {x : Except ε β} {b : β} : (if c then throw e >>= f else x) = .ok b ↔ ¬c ∧ x = .ok b := by
  by_cases h : c
  · simp [h, throw, throwThe, MonadExceptOf.throw, bind, Except.bind]
  · simp [h]

/-- Where the elements of a list are mapped as a relation says, the list is. -/
theorem mapM_eq_ok_iff {f : α → Except ε β} {R : α → β → Prop} {l : List α} {r : List β}
    (h : ∀ a ∈ l, ∀ b, f a = .ok b ↔ R a b) : l.mapM f = .ok r ↔ List.Forall₂ R l r := by
  induction l generalizing r with
  | nil => simp [pure, Except.pure, eq_comm]
  | cons a rest ih =>
    have hrest : ∀ a ∈ rest, ∀ b, f a = .ok b ↔ R a b := fun a ha => h a (List.mem_cons_of_mem _ ha)
    rw [List.mapM_cons, bind_eq_ok_iff, List.forall₂_cons_left_iff]
    constructor
    · rintro ⟨b, hb, h'⟩
      obtain ⟨bs, hbs, hr⟩ := bind_eq_ok_iff.1 h'
      exact ⟨b, bs, (h a List.mem_cons_self b).1 hb, (ih hrest).1 hbs, (Except.ok.inj hr).symm⟩
    · rintro ⟨b, bs, hb, hbs, rfl⟩
      exact ⟨b, (h a List.mem_cons_self b).2 hb, bind_eq_ok_iff.2 ⟨bs, (ih hrest).2 hbs, rfl⟩⟩

/-- What a list is mapped to comes from its elements. -/
theorem exists_of_mem_mapM {f : α → Except ε β} {l : List α} {r : List β} (h : l.mapM f = .ok r)
    {b : β} (hb : b ∈ r) : ∃ a ∈ l, f a = .ok b :=
  ((mapM_eq_ok_iff fun _ _ _ => Iff.rfl).1 h).flip.exists_of_mem hb

/-- A computation ends with a result or with an error of a kind. -/
def EndsIn (E : ε → Prop) (R : α → Prop) : Except ε α → Prop
  | .ok a => R a
  | .error e => E e

namespace EndsIn

variable {E : ε → Prop} {R : α → Prop} {x : Except ε α}

/-- What holds of every result. -/
theorem ok (h : x.EndsIn E R) {a : α} (hx : x = .ok a) : R a := by
  subst hx
  exact h

/-- What holds of every error. -/
theorem error (h : x.EndsIn E R) {e : ε} (hx : x = .error e) : E e := by
  subst hx
  exact h

/-- What is said of errors and results may be weakened. -/
theorem imp {E' : ε → Prop} {S : α → Prop} (h : x.EndsIn E R) (hE : ∀ e, E e → E' e)
    (hR : ∀ a, R a → S a) : x.EndsIn E' S := by
  cases x with
  | error e => exact hE e h
  | ok a => exact hR a h

/-- The next step starts from a result of the step before. -/
theorem bind {S : β → Prop} {f : α → Except ε β} (h : x.EndsIn E R)
    (hf : ∀ a, x = .ok a → R a → (f a).EndsIn E S) : (x >>= f).EndsIn E S := by
  cases x with
  | error e => exact h
  | ok a => exact hf a rfl h

/-- Either way the step ends as it should. -/
theorem ite {c : Prop} [Decidable c] {y : Except ε α} (hx : x.EndsIn E R) (hy : y.EndsIn E R) :
    (if c then x else y).EndsIn E R := by
  split
  · exact hx
  · exact hy

/-- A refusal ends with its error, else the computation goes on. -/
theorem ite_throw {c : Prop} [Decidable c] {e : ε} {f : β → Except ε α} (he : E e)
    (h : ¬c → x.EndsIn E R) : (if c then throw e >>= f else x).EndsIn E R := by
  split
  · exact he
  · exact h ‹_›

end EndsIn

end Except
