/-!
# Attempts

A buffer is made before anything is read into it, as large as the file says. If it is too large to
be addressed, the program crashes. `Attempt` keeps that apart from what a function returns, be it a
result or an error: there is nothing that a caller could handle, and nothing that happens after it.
-/

namespace ObjcLens

/-- What becomes of a call. -/
inductive Attempt (α : Type) where
  /-- The program crashes in it. -/
  | crashed
  /-- It returns. -/
  | returned (a : α)
deriving DecidableEq, Repr, Inhabited

namespace Attempt

variable {α β : Type}

/-- One call after another; nothing follows a crash. -/
def bind : Attempt α → (α → Attempt β) → Attempt β
  | .crashed, _ => .crashed
  | .returned a, f => f a

instance : Monad Attempt where
  pure := returned
  bind := bind

instance : LawfulMonad Attempt := by
  refine LawfulMonad.mk' Attempt (fun x => ?_) (fun _ _ => rfl) fun x f g => ?_
  · cases x <;> rfl
  · cases x <;> rfl

@[simp]
theorem pure_eq (a : α) : (pure a : Attempt α) = .returned a := rfl

@[simp]
theorem crashed_bind (f : α → Attempt β) : (crashed >>= f) = .crashed := rfl

@[simp]
theorem returned_bind (a : α) (f : α → Attempt β) : (returned a >>= f) = f a := rfl

@[simp]
theorem map_crashed (f : α → β) : f <$> (crashed : Attempt α) = .crashed := rfl

@[simp]
theorem map_returned (f : α → β) (a : α) : f <$> returned a = .returned (f a) := rfl

/-- What was returned, if there was no crash. -/
def returned? : Attempt α → Option α
  | .crashed => none
  | .returned a => some a

end Attempt

end ObjcLens
