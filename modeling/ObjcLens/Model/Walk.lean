import ObjcLens.Error
import ObjcLens.Glob.Compile
import ObjcLens.Model.Basic

/-!
# Walking a model

`Model.walk` lists what there is to see in a model in a fixed order: protocols by name, then
classes by name, each followed by its categories by name, then the categories of classes outside
the model by class and name. Between entering and leaving an entity its members are listed.

Who looks at a model does so by folding over these events.
-/

namespace ObjcLens

/-- The kind of an entity. -/
inductive EntityKind where
  | ofProtocol
  | ofClass
  | ofCategory
deriving DecidableEq, Repr

/-- What a filter gets to know of an entity. -/
structure Entity where
  /-- The kind. -/
  kind : EntityKind
  /-- The name, for a category its key. -/
  name : Text
  /-- The class of a category, empty for other entities. -/
  className : Text := []
deriving DecidableEq, Repr

/-- Something that is seen on a walk. -/
inductive Event where
  /-- The walk starts. -/
  | start
  /-- The walk ends. -/
  | finish
  /-- A protocol starts. -/
  | enterProtocol (p : Protocol)
  /-- A protocol ends. -/
  | leaveProtocol (p : Protocol)
  /-- A class starts. -/
  | enterClass (c : Class)
  /-- A class ends. -/
  | leaveClass (c : Class)
  /-- A category starts. -/
  | enterCategory (c : Category)
  /-- A category ends. -/
  | leaveCategory (c : Category)
  /-- An instance variable. -/
  | ivar (v : Ivar)
  /-- A method, which a protocol may leave to its adopters. -/
  | method (m : Method) (isOptional : Bool)
  /-- A property of instances or of the class. -/
  | property (p : Property) (ofClass : Bool)

namespace Event

/-- The events of methods. -/
def methods (isOptional : Bool) (ms : List Method) : List Event := ms.map (.method · isOptional)

/-- The events of properties. -/
def properties (ofClass : Bool) (ps : List Property) : List Event := ps.map (.property · ofClass)

end Event

namespace Model

/-- The events of a protocol. -/
def visitProtocol (p : Protocol) : List Event :=
  [.enterProtocol p] ++ Event.methods false p.classMethods ++
    Event.methods false p.instanceMethods ++ Event.methods true p.optionalClassMethods ++
    Event.methods true p.optionalInstanceMethods ++ Event.properties true p.classProperties ++
    Event.properties false p.properties ++ [.leaveProtocol p]

/-- The events of a class. -/
def visitClass (c : Class) : List Event :=
  [.enterClass c] ++ c.ivars.map .ivar ++ Event.methods false c.classMethods ++
    Event.methods false c.instanceMethods ++ Event.properties true c.classProperties ++
    Event.properties false c.properties ++ [.leaveClass c]

/-- The events of a category. -/
def visitCategory (c : Category) : List Event :=
  [.enterCategory c] ++ Event.methods false c.classMethods ++
    Event.methods false c.instanceMethods ++ Event.properties true c.classProperties ++
    Event.properties false c.properties ++ [.leaveCategory c]

/-- Categories are ordered by class and name. -/
def categoryLe (a b : Category) : Bool :=
  if a.className = b.className then Text.le a.name b.name else Text.le a.className b.className

/-- The protocols by name. -/
def sortedProtocols (m : Model) : List Protocol :=
  m.protocols.mergeSort fun a b => Text.le a.name b.name

/-- The classes by name. -/
def sortedClasses (m : Model) : List Class := m.classes.mergeSort fun a b => Text.le a.name b.name

/-- The categories by class and name. -/
def sortedCategories (m : Model) : List Category := m.categories.mergeSort categoryLe

/-- The events of a walk that sees the visible entities. -/
def walk (m : Model) (visible : Entity → Bool) : List Event :=
  let categories := m.sortedCategories
  let ofCategory (c : Category) : List Event :=
    if visible ⟨.ofCategory, c.key, c.className⟩ then visitCategory c else []
  [.start] ++
    (m.sortedProtocols.flatMap fun p =>
      if visible ⟨.ofProtocol, p.name, []⟩ then visitProtocol p else []) ++
    (m.sortedClasses.flatMap fun c =>
      (if visible ⟨.ofClass, c.name, []⟩ then visitClass c else []) ++
        (categories.filter (·.className = c.name)).flatMap ofCategory) ++
    (categories.filter fun c => !m.hasClass c.className).flatMap ofCategory ++
    [.finish]

end Model

/-- The entities of a model. -/
def Model.entities (m : Model) : List Entity :=
  m.protocols.map (fun p => ⟨.ofProtocol, p.name, []⟩) ++
    m.classes.map (fun c => ⟨.ofClass, c.name, []⟩) ++
    m.categories.map fun c => ⟨.ofCategory, c.key, c.className⟩

/-- Which entities a walk sees: those that pass a filter, and those that match a pattern whatever
the filter says. -/
structure Scope where
  /-- The filter, which may have no answer; without one every entity is seen. -/
  keep : Option (Entity → Option Bool) := none
  /-- The patterns of entities that are always seen. -/
  force : List Text := []

namespace Scope

/-- Patterns that are ready for use. The error of a faulty one tells what it was for. -/
def compileAll (purpose : Text) (patterns : List Text) : Except Error (List Glob) :=
  patterns.mapM fun pattern =>
    (Glob.compile pattern).mapError fun fault =>
      .within ("invalid " ++ purpose ++ " " ++ Text.quote pattern ++ ": ") (.other fault.message)

/-- A pattern covers the entity: its name or, for a category, its class. -/
def covers (g : Glob) (e : Entity) : Option Bool :=
  Glob.testNames [g] (e.name :: if e.kind = .ofCategory then [e.className] else [])

/-- Some pattern covers the entity. -/
def covered : List Glob → Entity → Option Bool
  | [], _ => some false
  | g :: rest, e => do
    if ← covers g e then return true else covered rest e

/-- The entity is seen: it is forced, or it passes the filter. -/
def sees (keep : Option (Entity → Option Bool)) (force : List Glob) (e : Entity) :
    Option Bool := do
  if ← covered force e then return true
  else match keep with
    | none => return true
    | some keep => keep e

end Scope

/-- The events of a walk in a scope. It fails if a pattern is faulty, or if it cannot be told
whether an entity is seen. -/
def Model.walkIn (m : Model) (scope : Scope) : Except Error (List Event) := do
  let force ← Scope.compileAll "force pattern" scope.force
  match m.entities.filterM (Scope.sees scope.keep force) with
  | none => throw .undecided
  | some seen => return m.walk fun e => seen.contains e

end ObjcLens
