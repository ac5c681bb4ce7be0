import ObjcLens.Text.Basic

/-!
# Indices by name

A table from names to values, one for each name. Writing a name that is there replaces its value.
-/

namespace ObjcLens

/-- Values by name, the latest first: of several entries for a name only the first one counts. -/
structure NameIndex (α : Type) where
  /-- The entries. -/
  entries : List (Text × α) := []
deriving Inhabited

namespace NameIndex

variable {α : Type}

/-- The value of a name. -/
def find? (t : NameIndex α) (name : Text) : Option α :=
  (t.entries.find? fun entry => entry.1 = name).map (·.2)

/-- The table with a value for a name. -/
def insert (t : NameIndex α) (name : Text) (a : α) : NameIndex α := ⟨(name, a) :: t.entries⟩

@[simp]
theorem find?_empty (name : Text) : (find? {} name : Option α) = none := rfl

/-- The value of a name is the one that was written last. -/
theorem find?_insert (t : NameIndex α) (name : Text) (a : α) (name' : Text) :
    (t.insert name a).find? name' = if name = name' then some a else t.find? name' := by
  rw [find?, find?, insert, List.find?_cons]
  by_cases h : name = name' <;> simp [h]

end NameIndex

end ObjcLens
