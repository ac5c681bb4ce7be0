import ObjcLens.Dwarf.Unit

/-!
# Entries of debug information

The entries of a unit form a tree, written in the order in which it is walked from the root. An
entry that has children is followed by them and by an entry without a tag. `Dwarf.Info.unitNames`
lists the names of the compile units.
-/

namespace ObjcLens

namespace Dwarf

/-- The value of an attribute, as far as it matters here. -/
inductive Value where
  /-- A text. -/
  | text (t : Text)
  /-- The offset of another entry. -/
  | place (offset : UInt32)
  /-- Anything else. -/
  | other

/-- An entry. -/
structure Entry where
  /-- The kind; zero for the end of a list of children. -/
  tag : UInt16 := 0
  /-- Children follow. -/
  hasChildren : Bool := false
  /-- The attributes with their values. -/
  values : List (UInt32 × Value) := []

/-- The kind of compile units. -/
def compileUnitTag : UInt16 := 0x11

/-- The kind of partial units. -/
def partialUnitTag : UInt16 := 0x3C

/-- The attribute that tells the next entry on the same level. -/
def siblingAttribute : UInt32 := 0x01

/-- The attribute that tells the name. -/
def nameAttribute : UInt32 := 0x03

/-- The value of the first attribute with a name. -/
def Entry.value? (e : Entry) (name : UInt32) : Option Value :=
  (e.values.find? fun entry => entry.1 = name).map (·.2)

/-- The name of a compile unit. -/
def Entry.unitName? (e : Entry) : Option Text :=
  match e.value? nameAttribute with
  | some (.text t) => if e.tag = compileUnitTag then some t else none
  | _ => none

/-- The place of the next entry on the same level, zero if it is not told. -/
def Entry.sibling (e : Entry) : UInt32 :=
  match e.value? siblingAttribute with
  | some (.place offset) => offset
  | _ => 0

/-- Reads an address. -/
def readAddress (u : CompilationUnit) : Read UInt64 :=
  if [1, 2, 4, 8].contains u.addressSize then Read.fixed u.addressSize
  else Read.fail "unknown address size"

/-- A text in the section of texts. -/
def textAt (str : Text) (offset : UInt64) : Read Text := do
  let look : Read Text := do
    let _ ← Read.bytes (signed64 offset)
    Read.text
  let (t, _) ← look.run ⟨"str", (← get).order, 0, str⟩
  return t

/-- Reads as many bytes as a number in front of them says. -/
def readBlock (length : Read UInt64) : Read Value := do
  let _ ← Read.bytes (signed64 (← length))
  return .other

/-- Skips a number. -/
def skipNumber (number : Read UInt64) : Read Value := do
  let _ ← number
  return .other

/-- Reads the offset of another entry, counted from a base. -/
def readPlace (base : UInt32) (number : Read UInt64) : Read Value := do
  return .place ((← number).toUInt32 + base)

/-- Reads the value of a form that points into a section which is not there. -/
def readMissing (number : Read UInt64) (what : Text) : Read Value := do
  let _ ← number
  Read.fail what

/-- The form of a number that stands for an entry of the section of address ranges. -/
def rangeListForm : UInt16 := 0x23

/-- The error of a value that refers to the section of address ranges, which is never there. -/
def noRangeLists : DwarfError := .decoding "rnglists" 0 "underflow"

/-- Reads a value of a form. -/
def readValue (u : CompilationUnit) (str : Text) (form : UInt16) : Read Value := do
  let noAddr : Text := "DW_FORM_addrx with no .debug_addr section"
  let noStrx : Text := "DW_FORM_strx with no .debug_str_offsets section"
  let noLine : Text := "DW_FORM_line_strp with no .debug_line_str section"
  match form.toNat with
  | 0x01 => skipNumber (readAddress u)
  | 0x03 => readBlock (Read.fixed 2)
  | 0x04 => readBlock (Read.fixed 4)
  | 0x05 => skipNumber (Read.fixed 2)
  | 0x06 => skipNumber (Read.fixed 4)
  | 0x07 => skipNumber (Read.fixed 8)
  | 0x08 => do return .text (← Read.text)
  | 0x09 => readBlock Read.varint
  | 0x0A => readBlock (Read.fixed 1)
  | 0x0B => skipNumber (Read.fixed 1)
  | 0x0C => skipNumber (Read.fixed 1)
  | 0x0D => skipNumber Read.varint
  | 0x0E => do return .text (← textAt str (← Read.offset u.is64))
  | 0x0F => skipNumber Read.varint
  | 0x10 => readPlace 0 (if u.version = 2 then readAddress u else Read.offset u.is64)
  | 0x11 => readPlace u.base (Read.fixed 1)
  | 0x12 => readPlace u.base (Read.fixed 2)
  | 0x13 => readPlace u.base (Read.fixed 4)
  | 0x14 => readPlace u.base (Read.fixed 8)
  | 0x15 => readPlace u.base Read.varint
  | 0x17 => skipNumber (Read.offset u.is64)
  | 0x18 => readBlock Read.varint
  | 0x19 => return .other
  | 0x1A => readMissing Read.varint noStrx
  | 0x1B => readMissing Read.varint noAddr
  | 0x1C => skipNumber (Read.fixed 4)
  | 0x1D => skipNumber (Read.offset u.is64)
  | 0x1E => do
    let _ ← Read.bytes 16
    return .other
  | 0x1F => readMissing (Read.offset u.is64) noLine
  | 0x20 => skipNumber (Read.fixed 8)
  | 0x21 => return .other
  | 0x22 => skipNumber Read.varint
  | 0x23 => do
    let _ ← Read.varint
    throw noRangeLists
  | 0x24 => skipNumber (Read.fixed 8)
  | 0x25 => readMissing (Read.fixed 1) noStrx
  | 0x26 => readMissing (Read.fixed 2) noStrx
  | 0x27 => readMissing (Read.fixed 3) noStrx
  | 0x28 => readMissing (Read.fixed 4) noStrx
  | 0x29 => readMissing (Read.fixed 1) noAddr
  | 0x2A => readMissing (Read.fixed 2) noAddr
  | 0x2B => readMissing (Read.fixed 3) noAddr
  | 0x2C => readMissing (Read.fixed 4) noAddr
  | 0x1F20 | 0x1F21 => skipNumber (Read.offset u.is64)
  | _ => Read.fail ("unknown entry attr format " ++ Text.hex0x form.toNat)

/-- The forms of values that are looked up in another section by an offset or a number. Such a value
ends the reading of an entry in which an error was found. -/
def isLookedUp (form : UInt16) : Bool :=
  [0x0E, 0x1A, 0x1B, 0x1F].contains form || (0x25 ≤ form && form ≤ 0x2C)

/-- The error of an entry whose remaining attributes have some forms, when an error was found in
front of them. A range list is looked up even then, and its error takes the place of the first. -/
def lastingError (found : DwarfError) : List UInt16 → DwarfError
  | [] => found
  | form :: rest =>
    if isLookedUp form then found
    else if form = rangeListForm then noRangeLists
    else lastingError found rest

/-- Reads the values of attributes. -/
def readValues (u : CompilationUnit) (str : Text) :
    List Attribute → Read (List (UInt32 × Value))
  | [] => pure []
  | a :: rest => do
    let form ← if a.form = indirectForm then (·.toUInt16) <$> Read.varint else pure a.form
    let read : Read Value := do
      checkForm form
      readValue u str form
    let value ← tryCatch read fun found =>
      throw (if isLookedUp form then found else lastingError found (rest.map (·.form)))
    return (a.name, value) :: (← readValues u str rest)

/-- Reads an entry. -/
def readEntry (u : CompilationUnit) (str : Text) : Read Entry := do
  let id := (← Read.varint).toUInt32
  if id = 0 then return {}
  else match u.table.find? (·.id = id) with
    | none => Read.fail "unknown abbreviation table index"
    | some a => return ⟨a.tag, a.hasChildren, ← readValues u str a.attributes⟩

/-- A walk through the entries of all units. -/
structure Walker where
  /-- The rest of the current unit. -/
  cursor : Cursor
  /-- The current unit and those behind it. -/
  units : List CompilationUnit
  /-- The units. -/
  info : Info
  /-- Why the walk cannot go on. -/
  error : Option DwarfError := none
  /-- The last entry. -/
  last : Entry := {}

namespace Walker

/-- The walk moves to the first of some units. -/
def enter (w : Walker) (units : List CompilationUnit) : Walker :=
  match units with
  | [] => { w with units := [], cursor := ⟨"info", w.info.order, 0, []⟩ }
  | u :: _ => { w with units, cursor := ⟨"info", w.info.order, u.offset, u.data⟩ }

/-- A walk from the first unit on. -/
def start (info : Info) : Walker := (Walker.mk default [] info none {}).enter info.units

/-- The walk moves on as long as the current unit is used up and there is another one. -/
def skipEmpty (w : Walker) : List CompilationUnit → Walker
  | [] => w
  | [_] => w
  | _ :: u :: rest =>
    if w.cursor.data.isEmpty then skipEmpty (w.enter (u :: rest)) (u :: rest) else w

/-- The next entry, nothing at the end or after an error. -/
def next (w : Walker) : Option Entry × Walker :=
  if w.error.isSome then (none, w)
  else
    let w := w.skipEmpty w.units
    match w.units with
    | [] => (none, w)
    | u :: _ =>
      if w.cursor.data.isEmpty then (none, w)
      else match (readEntry u w.info.str).run w.cursor with
        | .error e => (none, { w with error := some e })
        | .ok (entry, cursor) => (some entry, { w with cursor, last := entry })

/-- The walk moves to the entry at an offset, which must lie in a unit. -/
def seek (w : Walker) (offset : UInt32) : Walker :=
  let w := { w with last := { w.last with hasChildren := false } }
  let before := w.info.units.takeWhile fun u => u.offset ≤ offset
  match before.getLast? with
  | none => { w with error := some .outOfRange }
  | some u =>
    if offset < u.offset + u.data.length.toUInt32 then
      { w with
        units := w.info.units.drop (before.length - 1)
        cursor := ⟨"info", w.info.order, offset, u.data.drop (offset - u.offset).toNat⟩ }
    else { w with error := some .outOfRange }

/-- The last entry is the root of a unit. -/
def atRoot (w : Walker) : Bool :=
  w.last.tag = compileUnitTag || w.last.tag = partialUnitTag

mutual

/-- The walk skips the children of the last entry: to the entry that is told, or to the next unit,
or by reading them. The fuel bounds the number of entries that are read. -/
def skipChildren : Nat → Walker → Walker
  | 0, w => w
  | fuel + 1, w =>
    if w.error.isSome || !w.last.hasChildren then w
    else if w.cursor.offset ≤ w.last.sibling then w.seek w.last.sibling
    else if w.atRoot && 1 < w.units.length then w.enter (w.units.drop 1)
    else skipList fuel w

/-- The walk skips a list of children with all that is below them. -/
def skipList : Nat → Walker → Walker
  | 0, w => w
  | fuel + 1, w =>
    match w.next with
    | (none, w) => w
    | (some e, w) =>
      if e.tag = 0 then w
      else skipList fuel (if e.hasChildren then skipChildren fuel w else w)

end

/-- The names of the compile units that follow, and why the walk stopped, if it did not reach the
end. The fuel bounds the number of entries. -/
def unitNames (skipFuel : Nat) : Nat → Walker → List Text × Option DwarfError
  | 0, w => ([], w.error)
  | fuel + 1, w =>
    match w.next with
    | (none, w) => ([], w.error)
    | (some e, w) =>
      let (names, error) := unitNames skipFuel fuel (skipChildren skipFuel w)
      (e.unitName?.toList ++ names, error)

end Walker

/-- The names of the compile units, and why reading stopped, if it did not reach the end. -/
def Info.unitNames (info : Info) : List Text × Option DwarfError :=
  let fuel := 2 * (info.units.map (·.data.length)).foldl (· + ·) 0 + 2 * info.units.length + 2
  (Walker.start info).unitNames fuel fuel

end Dwarf

end ObjcLens
