import ObjcLens.ObjcType.Declaration
import ObjcLens.Property.Attributes
import ObjcLens.Record.Flags

/-!
# Classes, categories and protocols

The entities that an image declares, with their members. Superclasses, protocols and the class
of a category are given by name. Lists keep the order of the image.
-/

namespace ObjcLens

/-- A method. -/
structure Method where
  /-- The name, with a colon for every argument. -/
  name : Text
  /-- The encoded signature. -/
  types : Text
  /-- The signature, if it is known. -/
  type : Option MethodType
  /-- The method belongs to the class and not to its instances. -/
  isClassMethod : Bool
  /-- The address of the code. -/
  imp : UInt64
deriving Inhabited

namespace Method

/-- The method as it is declared, without the sign in front. -/
def declare (m : Method) : Text := MethodType.declare m.name m.type

/-- The number of parameters, the receiver and the selector included. -/
def parameterCount (m : Method) : Nat := (m.type.map (·.params.length)).getD 0

end Method

/-- A property. -/
structure Property where
  /-- The name. -/
  name : Text
  /-- The attributes as text. -/
  encoded : Text
  /-- The attributes. -/
  attributes : PropertyAttributes
deriving Inhabited

/-- The type of a property, if it is known. -/
def Property.type (p : Property) : Option ObjcType := p.attributes.type

/-- An instance variable. -/
structure Ivar where
  /-- The name. -/
  name : Text
  /-- The encoded type. -/
  encoding : Text
  /-- The type, if it is known. -/
  type : Option ObjcType
  /-- The offset in the instance. -/
  offset : UInt32
  /-- The number of bytes. -/
  size : UInt32
  /-- The alignment in bytes. -/
  alignment : UInt32
deriving Inhabited

namespace Ivar

/-- The variable as it is declared. -/
def declare (v : Ivar) : Text := ObjcType.declare? v.name v.type ++ ";"

/-- The width of a bit field, zero for any other variable. -/
def bitWidth (v : Ivar) : Nat := (v.type.map (·.bitWidth)).getD 0

end Ivar

/-- The protocols behind the name of an entity, in angle brackets. -/
def adoptedList (protocols : List Text) : Text :=
  if protocols.isEmpty then [] else " <" ++ Text.joinWith ", " protocols ++ ">"

/-- A class. -/
structure Class where
  /-- The name. -/
  name : Text
  /-- The name of the superclass, empty if there is none. -/
  superclass : Text := []
  /-- The names of the adopted protocols. -/
  protocols : List Text := []
  /-- The instance variables. -/
  ivars : List Ivar := []
  /-- The class methods. -/
  classMethods : List Method := []
  /-- The instance methods. -/
  instanceMethods : List Method := []
  /-- The properties of instances. -/
  properties : List Property := []
  /-- The properties of the class. -/
  classProperties : List Property := []
  /-- The class was compiled by Swift before its binary interface was stable. -/
  isSwiftLegacy : Bool := false
  /-- The class was compiled by Swift. -/
  isSwiftStable : Bool := false
  /-- The flags. -/
  flags : ClassFlags := 0
  /-- The size of an instance. -/
  instanceSize : UInt32 := 0
  /-- The address of the record. -/
  addr : UInt64 := 0
deriving Inhabited

namespace Class

/-- The class was compiled by Swift. -/
def isSwift (c : Class) : Bool := c.isSwiftLegacy || c.isSwiftStable

/-- The class was compiled by Swift and shows no members. -/
def isMetadataOnly (c : Class) : Bool :=
  c.isSwift && c.instanceMethods.isEmpty && c.classMethods.isEmpty && c.ivars.isEmpty &&
    c.properties.isEmpty && c.classProperties.isEmpty

/-- The first line of the declaration. -/
def describe (c : Class) : Text :=
  let superclass : Text := if c.superclass.isEmpty then [] else " : " ++ c.superclass
  "@interface " ++ c.name ++ superclass ++ adoptedList c.protocols

end Class

/-- A category: members that are added to a class. -/
structure Category where
  /-- The name. -/
  name : Text
  /-- The name of the class. -/
  className : Text := []
  /-- The names of the adopted protocols. -/
  protocols : List Text := []
  /-- The class methods. -/
  classMethods : List Method := []
  /-- The instance methods. -/
  instanceMethods : List Method := []
  /-- The properties of instances. -/
  properties : List Property := []
  /-- The properties of the class. -/
  classProperties : List Property := []
  /-- The address of the record. -/
  addr : UInt64 := 0
deriving Inhabited

namespace Category

/-- The name under which the category is known: that of the class and its own. -/
def key (c : Category) : Text := c.className ++ "(" ++ c.name ++ ")"

/-- The first line of the declaration. -/
def describe (c : Category) : Text :=
  "@interface " ++ c.className ++ " (" ++ c.name ++ ")" ++ adoptedList c.protocols

end Category

/-- A protocol: members that a class can promise to have. -/
structure Protocol where
  /-- The name. -/
  name : Text
  /-- The names of the adopted protocols. -/
  protocols : List Text := []
  /-- The required instance methods. -/
  instanceMethods : List Method := []
  /-- The required class methods. -/
  classMethods : List Method := []
  /-- The optional instance methods. -/
  optionalInstanceMethods : List Method := []
  /-- The optional class methods. -/
  optionalClassMethods : List Method := []
  /-- The properties of instances. -/
  properties : List Property := []
  /-- The properties of the class. -/
  classProperties : List Property := []
  /-- The name without the compiler's additions. -/
  demangledName : Text := []
  /-- The address of the record. -/
  addr : UInt64 := 0
deriving Inhabited

/-- The first line of the declaration. -/
def Protocol.describe (p : Protocol) : Text :=
  "@protocol " ++ p.name ++ adoptedList p.protocols

end ObjcLens
