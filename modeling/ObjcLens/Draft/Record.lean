import ObjcLens.Bytes
import ObjcLens.Draft.Basic

/-!
# Drafting records

Writes the records of classes, protocols and categories into a draft. Records go to the section
of constants, those that the runtime changes to the data section, and their addresses to the
lists of the image.
-/

namespace ObjcLens

/-- A method to be written: its name and its encoded signature. -/
structure DraftMethod where
  /-- The name. -/
  name : Text
  /-- The signature. -/
  types : Text

/-- An instance variable to be written. -/
structure DraftIvar where
  /-- The name. -/
  name : Text
  /-- The encoded type. -/
  type : Text
  /-- The offset in the instance. -/
  offset : UInt32
  /-- The number of bytes. -/
  size : UInt32

/-- A property to be written: its name and its attributes. -/
structure DraftProperty where
  /-- The name. -/
  name : Text
  /-- The attributes. -/
  attributes : Text

/-- The layout of a list of methods. -/
inductive MethodLayout where
  /-- Entries of three addresses. -/
  | addresses
  /-- Entries of three distances, that of the name by way of a reference. -/
  | distances
  /-- Entries of three distances, as the list is marked to have. -/
  | directDistances
  /-- Entries of three distances in a list that bears no mark of it. -/
  | unmarkedDistances
deriving DecidableEq, Repr

/-- A class to be written. -/
structure DraftClass where
  /-- The name. -/
  name : Text
  /-- The address of the superclass, zero if there is none. -/
  superclass : UInt64 := 0
  /-- The class has no superclass. -/
  isRoot : Bool := false
  /-- The class is marked as compiled by Swift. -/
  isSwift : Bool := false
  /-- The layout of its lists of methods. -/
  layout : MethodLayout := .addresses
  /-- The instance methods. -/
  instanceMethods : List DraftMethod := []
  /-- The class methods. -/
  classMethods : List DraftMethod := []
  /-- The instance variables. -/
  ivars : List DraftIvar := []
  /-- The properties. -/
  properties : List DraftProperty := []
  /-- The addresses of the adopted protocols. -/
  protocols : List UInt64 := []
  /-- The class is left out of the list of classes. -/
  isUnlisted : Bool := false

/-- A protocol to be written. -/
structure DraftProtocol where
  /-- The name. -/
  name : Text
  /-- The addresses of the adopted protocols. -/
  protocols : List UInt64 := []
  /-- The required instance methods. -/
  instanceMethods : List DraftMethod := []
  /-- The required class methods. -/
  classMethods : List DraftMethod := []
  /-- The optional instance methods. -/
  optionalInstanceMethods : List DraftMethod := []
  /-- The properties. -/
  properties : List DraftProperty := []
  /-- Extended signatures, one for every method in order, or none at all. -/
  extendedTypes : List Text := []

/-- A category to be written. -/
structure DraftCategory where
  /-- The name. -/
  name : Text
  /-- The address of the class. -/
  classAddr : UInt64 := 0
  /-- The instance methods. -/
  instanceMethods : List DraftMethod := []
  /-- The class methods. -/
  classMethods : List DraftMethod := []
  /-- The addresses of the adopted protocols. -/
  protocols : List UInt64 := []
  /-- The properties. -/
  properties : List DraftProperty := []

namespace Drafting

/-- The flag of a metaclass. -/
def metaFlag : UInt32 := 1

/-- The flag of a class without superclass. -/
def rootFlag : UInt32 := 2

/-- Adds 32-bit numbers as bytes. -/
def words (values : List UInt32) : Drafting Text := do return (← get).words values

/-- Adds pointers as bytes. -/
def pointers (values : List UInt64) : Drafting Text := do return (← get).pointers values

/-- Writes a record to the section of constants, at a multiple of eight bytes. -/
def record (bytes : Text) : Drafting UInt64 := do
  align "__DATA" "__objc_const" 8
  append "__DATA" "__objc_const" bytes

/-- The address of the code of every method. -/
def codeAddr : Drafting UInt64 := do
  let s ← find "__TEXT" "__text"
  return (← get).addressOf s

/-- The entry of a method with three addresses. -/
def addressEntry (m : DraftMethod) : Drafting Text := do
  let name ← cstring m.name
  let types ← cstring m.types
  pointers [name, types, ← codeAddr]

/-- Where the distances of a method lead to: its name, or a reference to it, and its
signature. -/
def distanceTargets (layout : MethodLayout) (m : DraftMethod) : Drafting (UInt64 × UInt64) := do
  let name ← cstring m.name
  let target ← if layout = .distances then
      append "__DATA" "__objc_selrefs" (← pointers [name])
    else pure name
  return (target, ← cstring m.types)

/-- The distance between two addresses, reduced to 32 bits. -/
def distance (target place : UInt64) : UInt32 := (target - place).toUInt32

/-- The entry of a method with three distances, from the address of the entry on. -/
def distanceEntry (code addr : UInt64) (targets : UInt64 × UInt64) : Drafting Text :=
  words [distance targets.1 addr, distance targets.2 (addr + 4), distance code (addr + 8)]

/-- The entries of methods with distances, one behind the other from an address on. -/
def distanceEntries (code : UInt64) : UInt64 → List (UInt64 × UInt64) → Drafting Text
  | _, [] => pure []
  | addr, targets :: rest => do
    let first ← distanceEntry code addr targets
    return first ++ (← distanceEntries code (addr + 12) rest)

/-- The first word of a list of methods with distances. -/
def distanceFlags (layout : MethodLayout) : UInt32 :=
  12 ||| 0x80000000 ||| (if layout = .directDistances then 0x40000000 else 0)

/-- Writes a list of methods and returns its address, zero if there are none. Images with 32-bit
addresses always have addresses in their lists. -/
def methodList (layout : MethodLayout) (ms : List DraftMethod) : Drafting UInt64 := do
  let d ← get
  if ms.isEmpty then return 0
  else if layout = .addresses || !d.is64 then
    let head ← words [3 * d.pointerSize.toUInt32, ms.length.toUInt32]
    let entries ← ms.mapM addressEntry
    record (head ++ entries.flatten)
  else
    let targets ← ms.mapM (distanceTargets layout)
    align "__DATA" "__objc_const" 8
    let s ← find "__DATA" "__objc_const"
    let addr := (← get).addressOf s + s.contents.length.toUInt64
    let head ← words [distanceFlags layout, ms.length.toUInt32]
    let entries ← distanceEntries (← codeAddr) (addr + 8) targets
    append "__DATA" "__objc_const" (head ++ entries)

/-- The entry of an instance variable. -/
def ivarEntry (entry : DraftIvar × UInt64) : Drafting Text := do
  let name ← cstring entry.1.name
  let type ← cstring entry.1.type
  return (← pointers [entry.2, name, type]) ++ (← words [2, entry.1.size])

/-- Writes a list of instance variables and their offsets, and returns its address. -/
def ivarList (vs : List DraftIvar) : Drafting UInt64 := do
  if vs.isEmpty then return 0
  else
    let offsets ← vs.mapM fun v => do record (← words [v.offset, 0])
    let head ← words [3 * (← get).pointerSize.toUInt32 + 8, vs.length.toUInt32]
    let entries ← (vs.zip offsets).mapM ivarEntry
    record (head ++ entries.flatten)

/-- The entry of a property. -/
def propertyEntry (p : DraftProperty) : Drafting Text := do
  let name ← cstring p.name
  let attributes ← cstring p.attributes
  pointers [name, attributes]

/-- Writes a list of properties and returns its address. -/
def propertyList (ps : List DraftProperty) : Drafting UInt64 := do
  if ps.isEmpty then return 0
  else
    let head ← words [2 * (← get).pointerSize.toUInt32, ps.length.toUInt32]
    let entries ← ps.mapM propertyEntry
    record (head ++ entries.flatten)

/-- Writes a list of protocols and returns its address. -/
def protocolList (addrs : List UInt64) : Drafting UInt64 := do
  if addrs.isEmpty then return 0
  else record (← pointers (addrs.length.toUInt64 :: addrs))

/-- Writes the data of a class and returns its address. -/
def classData (flags : UInt32) (name : Text) (methods protocols ivars properties : UInt64) :
    Drafting UInt64 := do
  let head ← words (if (← get).is64 then [flags, 0, 0, 0] else [flags, 0, 0])
  let name ← cstring name
  record (head ++ (← pointers [0, name, methods, protocols, ivars, 0, properties]))

/-- Writes a class with its metaclass and returns its address. -/
def addClass (c : DraftClass) : Drafting UInt64 := do
  let flags := if c.isRoot then rootFlag else 0
  let classMethods ← methodList c.layout c.classMethods
  let metaData ← classData (flags ||| metaFlag) c.name classMethods 0 0 0
  let instanceMethods ← methodList c.layout c.instanceMethods
  let protocols ← protocolList c.protocols
  let ivars ← ivarList c.ivars
  let properties ← propertyList c.properties
  let data ← classData flags c.name instanceMethods protocols ivars properties
  align "__DATA" "__objc_data" 8
  let isa ← append "__DATA" "__objc_data" (← pointers [0, 0, 0, 0, metaData])
  let data := if c.isSwift then data ||| 2 else data
  let addr ← append "__DATA" "__objc_data" (← pointers [isa, c.superclass, 0, 0, data])
  if !c.isUnlisted then
    let _ ← append "__DATA_CONST" "__objc_classlist" (← pointers [addr])
  return addr

/-- Writes a protocol and returns its address. -/
def addProtocol (p : DraftProtocol) : Drafting UInt64 := do
  let extended ← if p.extendedTypes.isEmpty then pure 0
    else do
      let addrs ← p.extendedTypes.mapM cstring
      record (← pointers addrs)
  let name ← cstring p.name
  let protocols ← protocolList p.protocols
  let instanceMethods ← methodList .addresses p.instanceMethods
  let classMethods ← methodList .addresses p.classMethods
  let optionalMethods ← methodList .addresses p.optionalInstanceMethods
  let properties ← propertyList p.properties
  let size := (← get).pointerSize.toUInt32
  let head ← pointers
    [0, name, protocols, instanceMethods, classMethods, optionalMethods, 0, properties]
  let sizes ← words [8 * size + 8 + 3 * size, 0]
  let tail ← pointers [extended, 0, 0]
  align "__DATA" "__objc_data" 8
  let addr ← append "__DATA" "__objc_data" (head ++ sizes ++ tail)
  let _ ← append "__DATA_CONST" "__objc_protolist" (← pointers [addr])
  return addr

/-- Writes a category and returns its address. -/
def addCategory (c : DraftCategory) : Drafting UInt64 := do
  let name ← cstring c.name
  let instanceMethods ← methodList .addresses c.instanceMethods
  let classMethods ← methodList .addresses c.classMethods
  let protocols ← protocolList c.protocols
  let properties ← propertyList c.properties
  let addr ← record (← pointers
    [name, c.classAddr, instanceMethods, classMethods, protocols, properties])
  let _ ← append "__DATA_CONST" "__objc_catlist" (← pointers [addr])
  return addr

/-- Writes the image info record. -/
def imageInfo (flags : UInt32) : Drafting Unit := do
  let _ ← append "__DATA_CONST" "__objc_imageinfo" (← words [0, flags])

/-- Writes a small example: a protocol, a class, a subclass that adopts the protocol, and a
category of the subclass. -/
def sample (layout : MethodLayout) : Drafting Unit := do
  imageInfo 0
  let greeter ← addProtocol {
    name := "Greeter"
    instanceMethods := [⟨"greet:", "v24@0:8@16"⟩]
    properties := [⟨"name", "T@\"NSString\",C,N"⟩]
    extendedTypes := ["v24@0:8@\"NSString\"16"] }
  let base ← addClass {
    name := "Base"
    isRoot := true
    layout
    instanceMethods := [⟨"count", "i16@0:8"⟩]
    classMethods := [⟨"shared", "@16@0:8"⟩]
    ivars := [⟨"_count", "i", 8, 4⟩]
    properties := [⟨"count", "Ti,R,N,V_count"⟩] }
  let derived ← addClass {
    name := "Derived"
    superclass := base
    layout
    instanceMethods := [⟨"greet:", "v24@0:8@16"⟩]
    ivars := [⟨"_frame", "\x7bCGRect=\x7bCGPoint=dd\x7d\x7bCGSize=dd\x7d\x7d", 16, 32⟩]
    protocols := [greeter] }
  let _ ← addCategory {
    name := "Extras"
    classAddr := derived
    instanceMethods := [⟨"extra", "v16@0:8"⟩] }

end Drafting

end ObjcLens
