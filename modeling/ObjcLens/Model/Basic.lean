import ObjcLens.Model.Entity

/-!
# Models

All classes, categories and protocols that are looked at together. Names may repeat; a name
means the first entity that has it.
-/

namespace ObjcLens

/-- The entities that are looked at together. -/
structure Model where
  /-- The classes. -/
  classes : List Class := []
  /-- The categories. -/
  categories : List Category := []
  /-- The protocols. -/
  protocols : List Protocol := []
deriving Inhabited

namespace Model

/-- The first class with a name. -/
def class? (m : Model) (name : Text) : Option Class := m.classes.find? (·.name = name)

/-- The first protocol with a name. -/
def protocol? (m : Model) (name : Text) : Option Protocol := m.protocols.find? (·.name = name)

/-- The model has a class with the name. -/
def hasClass (m : Model) (name : Text) : Bool := (m.class? name).isSome

/-- The model has a protocol with the name. -/
def hasProtocol (m : Model) (name : Text) : Bool := (m.protocol? name).isSome

/-- The superclasses of a class, nearest first, without those seen before. The fuel bounds their
number. -/
def superclassesFrom (m : Model) : Nat → List Text → Text → List Text
  | 0, _, _ => []
  | fuel + 1, seen, name =>
    match m.class? name with
    | none => []
    | some c =>
      if c.superclass.isEmpty || seen.contains c.superclass then []
      else c.superclass :: superclassesFrom m fuel (c.superclass :: seen) c.superclass

/-- The names of the superclasses of a class, nearest first, up to the first one outside the
model or a repetition. There are at most as many as there are classes. -/
def superclassChain (m : Model) (name : Text) : List Text :=
  m.superclassesFrom m.classes.length [name] name

end Model

end ObjcLens
