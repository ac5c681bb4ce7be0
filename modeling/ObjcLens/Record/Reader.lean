import ObjcLens.Decoder.Dialogue
import ObjcLens.Image.Read
import ObjcLens.Log
import ObjcLens.Model.Entity

/-!
# Reading runtime records

The runtime finds classes, categories and protocols by lists of addresses in sections of their
own. Each address leads to a record, and the record to names, methods, variables and
properties. A `RecordReader` reads such records from an image, in a dialogue with a decoder. It
keeps what it did even when a record cannot be read: names that it resolved, encodings that it asked
to be decoded, and log entries.

The names of classes and protocols are remembered by address unless `Context.rememberNames` is
off.
-/

namespace ObjcLens

/-- What a reader of records works on. -/
structure Context where
  /-- The image. -/
  image : Image
  /-- The chained fixups of the image. -/
  chained : Except Error ChainedFixups
  /-- Categories have a list of class properties. -/
  categoryClassProperties : Bool
  /-- Names are looked up before they are read again. -/
  rememberNames : Bool := true

/-- What a reader of records keeps. -/
structure Progress where
  /-- The names of class records by address. -/
  classNames : List (UInt64 × Text) := []
  /-- The names of protocol records by address. -/
  protocolNames : List (UInt64 × Text) := []
  /-- The encodings that were decoded, the last one first. -/
  requests : List DecodeRequest := []
  /-- The log, the last entry first. -/
  log : List LogEntry := []
deriving Inhabited

/-- Reads from an image and asks a decoder; what it keeps survives an error. -/
abbrev RecordReader := ReaderT Context (ExceptT Error (StateT Progress Dialogue))

namespace RecordReader

/-- A read of the image. -/
def ofExcept {α : Type} (result : Except Error α) : RecordReader α :=
  match result with
  | .ok a => pure a
  | .error error => throw error

/-- The log with a new entry. -/
def note (entry : LogEntry) : RecordReader Unit :=
  modify fun p => { p with log := entry :: p.log }

/-- The steps with the record and the field of a dangling address filled in. -/
def annotating {α : Type} (record field : Text) (steps : RecordReader α) : RecordReader α :=
  tryCatch steps fun error => throw (error.annotate record field)

/-- What the decoder answers to a request. -/
def ask (request : DecodeRequest) : RecordReader request.Answer := do
  modify fun p => { p with requests := request :: p.requests }
  liftM (Dialogue.question request)

/-- The type of an encoding. -/
def decodeType (encoding : Text) : RecordReader ObjcType := ask (.type encoding)

/-- The signature of an encoding. -/
def decodeMethod (encoding : Text) : RecordReader MethodType := ask (.method encoding)

/-- The number of bytes of a pointer. -/
def pointerSize : RecordReader UInt64 := do return (← read).image.pointerSize.toUInt64

/-- The pointer at an address. It is logged if there are chained fixups that cannot be used. -/
def pointerAt (addr : UInt64) : RecordReader Image.Pointer := do
  let context ← read
  let pointer ← ofExcept (context.image.pointerWith context.chained addr)
  if context.image.hasFixups then
    match context.chained with
    | .error error =>
      note ⟨.debug, "chained fixups unavailable, using raw pointer", [("error", error.message)]⟩
    | .ok _ => pure ()
  return pointer

/-- The 32-bit number at an address. -/
def word32At (addr : UInt64) : RecordReader UInt32 := do
  let image := (← read).image
  return image.order.word32 (← ofExcept (image.readAddr addr 4))

/-- Refuses a range of addresses that does not lie in one readable section. -/
def checkRange (addr size : UInt64) : RecordReader Unit := do
  match (← read).image.sectionAt? addr with
  | none => throw (.dangling addr [] [])
  | some s =>
    if addr + size < addr || s.addr + s.size < addr + size then throw (.dangling addr [] [])
    if s.encrypted then throw (.encrypted s.segment s.name addr)

/-- A number of pointers from an address on. -/
def pointersFrom (size : UInt64) : Nat → UInt64 → RecordReader (List Image.Pointer)
  | 0, _ => pure []
  | count + 1, addr => do
    let first ← pointerAt addr
    let rest ← pointersFrom size count (addr + size)
    return first :: rest

/-- A number of pointers one behind the other in one section. -/
def pointers (addr : UInt64) (count : Nat) : RecordReader (List Image.Pointer) := do
  let size ← pointerSize
  checkRange addr (count.toUInt64 * size)
  pointersFrom size count addr

/-- The text at an address, empty for the address zero. -/
def text (addr : UInt64) : RecordReader Text :=
  if addr = 0 then pure [] else do ofExcept ((← read).image.cstring addr)

/-- The header of a list: a word with the entry size, and the number of entries. The entries
must not be too small, and all of them must lie in one section. -/
def listHeader (addr : UInt64) (minimum : UInt32) : RecordReader MethodListHeader := do
  let header : MethodListHeader := ⟨← word32At addr, ← word32At (addr + 4)⟩
  if header.entrySize < minimum then
    throw (.format (signed64 addr) "invalid list entry size"
      (some (Text.dec header.entrySize.toNat)))
  checkRange addr (8 + header.count.toUInt64 * header.entrySize.toUInt64)
  return header

/-- The items of a list, each at its address. -/
def entriesFrom {α : Type} (item : UInt64 → RecordReader α) (size : UInt64) :
    Nat → UInt64 → RecordReader (List α)
  | 0, _ => pure []
  | count + 1, addr => do
    let first ← item addr
    let rest ← entriesFrom item size count (addr + size)
    return first :: rest

/-- The items of the list with a header. -/
def entries {α : Type} (addr : UInt64) (header : MethodListHeader)
    (item : UInt64 → RecordReader α) : RecordReader (List α) :=
  entriesFrom item header.entrySize.toUInt64 header.count.toNat (addr + 8)

/-- The words of a class record: metaclass, superclass, two words of the runtime, and data. -/
structure ClassRecord where
  /-- The metaclass. -/
  isa : Image.Pointer
  /-- The superclass. -/
  superclass : Image.Pointer
  /-- The address of the data and two flags. -/
  data : ClassDataWord

/-- The class record at an address. -/
def classRecord (addr : UInt64) : RecordReader ClassRecord := do
  let words ← pointers addr 5
  return ⟨words.getD 0 default, words.getD 1 default, (words.getD 4 default).addr⟩

/-- The data of a class. -/
structure ClassData where
  /-- The flags. -/
  flags : ClassFlags
  /-- The size of an instance. -/
  instanceSize : UInt32
  /-- The address of the name. -/
  name : UInt64
  /-- The address of the methods. -/
  methods : UInt64
  /-- The address of the protocols. -/
  protocols : UInt64
  /-- The address of the instance variables. -/
  ivars : UInt64
  /-- The address of the properties. -/
  properties : UInt64

/-- The class data at an address. The pointers start behind three numbers, and a gap in 64-bit
images. -/
def classData (addr : UInt64) : RecordReader ClassData := do
  let flags ← word32At addr
  let _ ← word32At (addr + 4)
  let instanceSize ← word32At (addr + 8)
  let start := if (← pointerSize) = 8 then addr + 16 else addr + 12
  let words ← pointers start 7
  let word (index : Nat) : UInt64 := (words.getD index default).addr
  return ⟨flags, instanceSize, word 1, word 2, word 3, word 4, word 6⟩

/-- The data that a class record leads to. -/
def dataOf (record : ClassRecord) : RecordReader ClassData := do
  classData (record.data.address ((← pointerSize) = 8))

/-- The name of the class record at an address. -/
def className (addr : UInt64) : RecordReader Text := do
  let known := ((← get).classNames.find? fun entry => entry.1 = addr).map (·.2)
  match (← read).rememberNames, known with
  | true, some name => return name
  | _, _ =>
    let data ← dataOf (← classRecord addr)
    let name ← text data.name
    modify fun p => { p with classNames := (addr, name) :: p.classNames }
    return name

/-- The symbol without what the compiler puts in front of class names. -/
def symbolName (lead symbol : Text) : Text :=
  Text.dropLeading lead (Text.dropLeading ("_" ++ lead) symbol)

/-- The name of a class that a pointer leads to, in this image or another one. -/
def classReference (pointer : Image.Pointer) : RecordReader Text :=
  if !pointer.symbol.isEmpty then pure (symbolName "_OBJC_CLASS_$_" pointer.symbol)
  else if pointer.addr = 0 then pure []
  else className pointer.addr

/-- A method whose entry holds three addresses: name, signature and code. -/
def bigMethod (isClassMethod : Bool) (addr : UInt64) : RecordReader Method := do
  let words ← pointers addr 3
  let word (index : Nat) : UInt64 := (words.getD index default).addr
  let name ← text (word 0)
  let types ← text (word 1)
  return ⟨name, types, some (← decodeMethod types), isClassMethod, word 2⟩

/-- An address moved by a signed distance. -/
def move (addr : UInt64) (distance : UInt32) : UInt64 := addr + wrap64 (signed32 distance)

/-- A method whose entry holds three distances from itself. That of the name leads to the name,
or to a reference to it. -/
def smallMethod (isClassMethod direct : Bool) (addr : UInt64) : RecordReader Method := do
  let image := (← read).image
  let bytes ← ofExcept (image.readAddr addr 12)
  let distance (offset : Nat) : UInt32 := image.order.word32 (bytes.drop offset)
  let target := move addr (distance 0)
  let nameAddr ← if direct then pure target else do pure (← pointerAt target).addr
  let name ← text nameAddr
  let types ← text (move (addr + 4) (distance 4))
  let imp := if distance 8 = 0 then 0 else move (addr + 8) (distance 8)
  return ⟨name, types, some (← decodeMethod types), isClassMethod, imp⟩

/-- The methods of the list at an address, none for the address zero. -/
def methods (addr : UInt64) (isClassMethod : Bool) : RecordReader (List Method) :=
  if addr = 0 then pure []
  else do
    let isSmall := (MethodListHeader.mk (← word32At addr) 0).isSmall
    let size := (← pointerSize).toUInt32
    let header ← listHeader addr (if isSmall then 12 else 3 * size)
    if header.isSmall then entries addr header (smallMethod isClassMethod header.isDirect)
    else entries addr header (bigMethod isClassMethod)

/-- The instance variable at an address. -/
def ivar (addr : UInt64) : RecordReader Ivar := do
  let words ← pointers addr 3
  let word (index : Nat) : UInt64 := (words.getD index default).addr
  let size ← pointerSize
  let alignment ← word32At (addr + 3 * size)
  let length ← word32At (addr + 3 * size + 4)
  let offset ← if word 0 = 0 then pure 0 else word32At (word 0)
  let name ← text (word 1)
  let encoding ← text (word 2)
  return {
    name, encoding, offset
    type := some (← decodeType encoding)
    size := length
    alignment := ivarAlignment alignment size.toUInt32 }

/-- The instance variables of the list at an address, none for the address zero. -/
def ivars (addr : UInt64) : RecordReader (List Ivar) :=
  if addr = 0 then pure []
  else do
    let header ← listHeader addr (3 * (← pointerSize).toUInt32 + 8)
    entries addr header ivar

/-- The property at an address. -/
def property (addr : UInt64) : RecordReader Property := do
  let words ← pointers addr 2
  let word (index : Nat) : UInt64 := (words.getD index default).addr
  let name ← text (word 0)
  let encoded ← text (word 1)
  let attributes := PropertyAttributes.parse encoded
  if attributes.typeEncoding.isEmpty then return ⟨name, encoded, attributes⟩
  else
    let type ← decodeType attributes.typeEncoding
    return ⟨name, encoded, { attributes with type := some type }⟩

/-- The properties of the list at an address, none for the address zero. -/
def properties (addr : UInt64) : RecordReader (List Property) :=
  if addr = 0 then pure []
  else do
    let header ← listHeader addr (2 * (← pointerSize).toUInt32)
    entries addr header property

/-- The name of the protocol record at an address. -/
def protocolName (addr : UInt64) : RecordReader Text := do
  let known := ((← get).protocolNames.find? fun entry => entry.1 = addr).map (·.2)
  match (← read).rememberNames, known with
  | true, some name => return name
  | _, _ =>
    let name ← text (← pointerAt (addr + (← pointerSize))).addr
    modify fun p => { p with protocolNames := (addr, name) :: p.protocolNames }
    return name

/-- The name of a protocol that a pointer leads to, in this image or another one. -/
def protocolReference (pointer : Image.Pointer) : RecordReader Text :=
  if pointer.symbol.isEmpty then protocolName pointer.addr
  else pure (symbolName "_OBJC_PROTOCOL_$_" pointer.symbol)

/-- The names of the protocols of the list at an address, none for the address zero. The list
starts with the number of its entries. -/
def protocolNames (addr : UInt64) : RecordReader (List Text) :=
  if addr = 0 then pure []
  else do
    let count := (← pointerAt addr).addr
    if count = 0 then return []
    if 0xFFFFFFFF < count then throw (.dangling addr [] [])
    let words ← pointers (addr + (← pointerSize)) count.toNat
    words.mapM protocolReference

/-- The class at an address. Its class members are those of its metaclass. -/
def readClass (addr : UInt64) : RecordReader Class := do
  let record ← classRecord addr
  let data ← annotating [] "data" (dataOf record)
  let name ← annotating [] "name" (text data.name)
  -- from here on other records find the name without reading the class again
  modify fun p => { p with classNames := (addr, name) :: p.classNames }
  let label := "class " ++ name
  let superclass ← if data.flags.isRoot then pure []
    else annotating label "superclass" (classReference record.superclass)
  let instanceMethods ← annotating label "baseMethods" (methods data.methods false)
  let protocols ← annotating label "baseProtocols" (protocolNames data.protocols)
  let ivars ← annotating label "ivars" (ivars data.ivars)
  let instanceProperties ← annotating label "baseProperties" (properties data.properties)
  let base : Class := {
    name, superclass, protocols, ivars, instanceMethods, addr
    properties := instanceProperties
    isSwiftLegacy := record.data.isSwiftLegacy
    isSwiftStable := record.data.isSwiftStable
    flags := data.flags
    instanceSize := data.instanceSize }
  -- the metaclass of another image cannot be read
  if record.isa.addr = 0 || !record.isa.symbol.isEmpty then return base
  let metaData ← annotating label "isa" do dataOf (← classRecord record.isa.addr)
  if !metaData.flags.isMeta then return base
  let classMethods ← annotating label "isa.baseMethods" (methods metaData.methods true)
  let classProperties ←
    annotating label "isa.baseProperties" (properties metaData.properties)
  return { base with classMethods, classProperties }

/-- The words of a protocol record. The last three are present if the record is large enough. -/
structure ProtocolRecord where
  /-- The address of the name. -/
  name : UInt64
  /-- The address of the adopted protocols. -/
  protocols : UInt64
  /-- The address of the required instance methods. -/
  instanceMethods : UInt64
  /-- The address of the required class methods. -/
  classMethods : UInt64
  /-- The address of the optional instance methods. -/
  optionalInstanceMethods : UInt64
  /-- The address of the optional class methods. -/
  optionalClassMethods : UInt64
  /-- The address of the properties of instances. -/
  properties : UInt64
  /-- The address of the extended signatures. -/
  extendedTypes : UInt64
  /-- The address of the demangled name. -/
  demangledName : UInt64
  /-- The address of the properties of the class. -/
  classProperties : UInt64

/-- The protocol record at an address. -/
def protocolRecord (addr : UInt64) : RecordReader ProtocolRecord := do
  let words ← pointers addr 8
  let word (index : Nat) : UInt64 := (words.getD index default).addr
  let size ← pointerSize
  let base := addr + 8 * size
  let recordSize ← word32At base
  let _ ← word32At (base + 4)
  -- older records end in front of the last three words
  let present (index : UInt64) : Bool := 8 * size + 8 + (index + 1) * size ≤ recordSize.toUInt64
  let extra (index : UInt64) : RecordReader UInt64 :=
    if present index then do return (← pointerAt (base + 8 + index * size)).addr else pure 0
  return {
    name := word 1
    protocols := word 2
    instanceMethods := word 3
    classMethods := word 4
    optionalInstanceMethods := word 5
    optionalClassMethods := word 6
    properties := word 7
    extendedTypes := ← extra 0
    demangledName := ← extra 1
    classProperties := ← extra 2 }

/-- A method with an extended signature, unless that is empty. -/
def extendMethod (m : Method) (types : Text) : RecordReader Method :=
  if types.isEmpty then pure m
  else do return { m with types, type := some (← decodeMethod types) }

/-- Methods with their extended signatures, one for each, and the signatures left over. -/
def extendMethods : List Method → List Text → RecordReader (List Method × List Text)
  | m :: rest, types :: others => do
    let first ← extendMethod m types
    let (rest, others) ← extendMethods rest others
    return (first :: rest, others)
  | ms, others => pure (ms, others)

/-- The protocol with the extended signatures of the table at an address. The table has an entry
for every method: instance, class, optional instance and optional class methods. All entries are
read before any is used. -/
def extendProtocol (addr : UInt64) (p : Protocol) : RecordReader Protocol := do
  let total := p.instanceMethods.length + p.classMethods.length +
    p.optionalInstanceMethods.length + p.optionalClassMethods.length
  if total = 0 then return p
  let words ← pointers addr total
  let encodings ← words.mapM fun word => text word.addr
  let (instanceMethods, encodings) ← extendMethods p.instanceMethods encodings
  let (classMethods, encodings) ← extendMethods p.classMethods encodings
  let (optionalInstanceMethods, encodings) ← extendMethods p.optionalInstanceMethods encodings
  let (optionalClassMethods, _) ← extendMethods p.optionalClassMethods encodings
  return { p with
    instanceMethods, classMethods, optionalInstanceMethods, optionalClassMethods }

/-- The protocol at an address. If its extended signatures cannot be read, it keeps the plain
ones. -/
def readProtocol (addr : UInt64) : RecordReader Protocol := do
  let record ← protocolRecord addr
  let name ← annotating [] "name" (text record.name)
  modify fun p => { p with protocolNames := (addr, name) :: p.protocolNames }
  let label := "protocol " ++ name
  let protocols ← annotating label "protocols" (protocolNames record.protocols)
  let instanceMethods ←
    annotating label "instanceMethods" (methods record.instanceMethods false)
  let classMethods ← annotating label "classMethods" (methods record.classMethods true)
  let optionalInstanceMethods ←
    annotating label "optionalInstanceMethods" (methods record.optionalInstanceMethods false)
  let optionalClassMethods ←
    annotating label "optionalClassMethods" (methods record.optionalClassMethods true)
  let instanceProperties ←
    annotating label "instanceProperties" (properties record.properties)
  let classProperties ←
    annotating label "classProperties" (properties record.classProperties)
  let demangledName ← annotating label "demangledName" (text record.demangledName)
  let plain : Protocol := {
    name, protocols, instanceMethods, classMethods, optionalInstanceMethods, addr
    optionalClassMethods, classProperties, demangledName
    properties := instanceProperties }
  if record.extendedTypes = 0 then return plain
  tryCatch (extendProtocol record.extendedTypes plain) fun error => do
    -- a table that runs past the file is not forgiven
    if error.kind = .truncated then throw error
    let shown := error.annotate label "extendedMethodTypes"
    note ⟨.debug, "keeping plain method types", [("error", shown.message)]⟩
    return plain

/-- The category at an address. -/
def readCategory (addr : UInt64) : RecordReader Category := do
  let hasClassProperties := (← read).categoryClassProperties
  let words ← pointers addr (if hasClassProperties then 7 else 6)
  let word (index : Nat) : UInt64 := (words.getD index default).addr
  let name ← annotating [] "name" (text (word 0))
  let className ← annotating ("category " ++ name) "cls"
    (classReference (words.getD 1 default))
  let base : Category := { name, className, addr }
  let label := "category " ++ base.key
  let instanceMethods ← annotating label "instanceMethods" (methods (word 2) false)
  let classMethods ← annotating label "classMethods" (methods (word 3) true)
  let protocols ← annotating label "protocols" (protocolNames (word 4))
  let instanceProperties ← annotating label "instanceProperties" (properties (word 5))
  let classProperties ← annotating label "classProperties"
    (if hasClassProperties then properties (word 6) else pure [])
  return { base with
    instanceMethods, classMethods, protocols, classProperties
    properties := instanceProperties }

end RecordReader

end ObjcLens
