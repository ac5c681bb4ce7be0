/-!
# Bounded tables

A `Lru` holds at most a number of entries, most recently used first. Looking an entry up makes
it the most recent one, and adding to a full table drops the least recent one.
-/

namespace ObjcLens

/-- A table of at most `capacity` entries, most recently used first. -/
structure Lru (α β : Type) where
  /-- The largest number of entries. -/
  capacity : Nat
  /-- The entries, most recently used first. -/
  entries : List (α × β)

namespace Lru

variable {α β : Type} [BEq α]

/-- A table without entries. -/
def empty (capacity : Nat) : Lru α β := ⟨capacity, []⟩

/-- The number of entries. -/
def size (table : Lru α β) : Nat := table.entries.length

/-- The value of a key, and the table with that key as the most recent one. -/
def get? (table : Lru α β) (key : α) : Option (β × Lru α β) :=
  match table.entries.find? fun entry => entry.1 == key with
  | none => none
  | some (found, value) =>
    some (value, { table with
      entries := (found, value) :: table.entries.filter fun entry => !(entry.1 == key) })

/-- The table with a new most recent entry. -/
def insert (table : Lru α β) (key : α) (value : β) : Lru α β :=
  { table with entries :=
      ((key, value) :: table.entries.filter fun entry => !(entry.1 == key)).take table.capacity }

/-- The value of a key, computed and added if it is missing. The flag tells that it was
computed. -/
def fetch (compute : α → β) (table : Lru α β) (key : α) : β × Bool × Lru α β :=
  match table.get? key with
  | some (value, table) => (value, false, table)
  | none => let value := compute key; (value, true, table.insert key value)

end Lru

end ObjcLens
