import ObjcLens.ObjcType.Decode

/-!
# Property attributes

The attributes of a declared property are a text of entries separated by commas. The first
letter of an entry tells what it is; the entry `T` holds the type encoding, which may itself
contain commas.
-/

namespace ObjcLens

/-- The attributes of a property. -/
structure PropertyAttributes where
  /-- The type, if there is a type entry. -/
  type : Option ObjcType := none
  /-- The text of the type. -/
  typeEncoding : Text := []
  /-- There is no setter. -/
  readOnly : Bool := false
  /-- The value is copied when it is assigned. -/
  copy : Bool := false
  /-- The value is retained when it is assigned. -/
  retain : Bool := false
  /-- The accessors are not atomic. -/
  nonatomic : Bool := false
  /-- The accessors are supplied at run time. -/
  dynamic : Bool := false
  /-- The reference is weak. -/
  weak : Bool := false
  /-- The value takes part in garbage collection. -/
  collectable : Bool := false
  /-- The name of a getter of its own. -/
  getter : Text := []
  /-- The name of a setter of its own. -/
  setter : Text := []
  /-- The instance variable behind the property. -/
  ivar : Text := []
deriving Inhabited

namespace PropertyAttributes

/-- The type at the start of a text and the text behind it. A type that no comma follows is
undecodable, and ends at the next comma. -/
def readType (s : Text) : (ObjcType × Text) × Text :=
  let (type, rest) := ObjcType.decode s
  if rest.isEmpty || rest.head? = some (byte ',') then
    ((type, s.take (s.length - rest.length)), rest)
  else
    let text := s.takeWhile (· != byte ',')
    ((.unknown text, text), s.dropWhile (· != byte ','))

/-- The attributes with one entry that is not the type: its letter and its value. Letters
without a meaning are skipped. -/
def set (attrs : PropertyAttributes) (code : UInt8) (value : Text) : PropertyAttributes :=
  match Char.ofUInt8 code with
  | 'R' => { attrs with readOnly := true }
  | 'C' => { attrs with copy := true }
  | '&' => { attrs with retain := true }
  | 'N' => { attrs with nonatomic := true }
  | 'D' => { attrs with dynamic := true }
  | 'W' => { attrs with weak := true }
  | 'P' => { attrs with collectable := true }
  | 'G' => { attrs with getter := value }
  | 'S' => { attrs with setter := value }
  | 'V' => { attrs with ivar := value }
  | _ => attrs

/-- The attributes that a text adds to some that were read before it. The fuel bounds the number
of entries. -/
def readFrom : Nat → PropertyAttributes → Text → PropertyAttributes
  | 0, attrs, _ => attrs
  | _, attrs, [] => attrs
  | fuel + 1, attrs, code :: s =>
    if code = byte 'T' then
      let ((type, text), rest) := readType s
      readFrom fuel { attrs with type := some type, typeEncoding := text }
        (Text.dropLeading "," rest)
    else
      readFrom fuel (attrs.set code (s.takeWhile (· != byte ',')))
        (Text.dropLeading "," (s.dropWhile (· != byte ',')))

/-- The attributes that a text describes. Of entries with the same letter the last one counts. -/
def parse (s : Text) : PropertyAttributes := readFrom s.length {} s

/-- The attributes as they are listed in a declaration. -/
def list (attrs : PropertyAttributes) : List Text :=
  let ownership : List Text :=
    if attrs.copy then ["copy"] else if attrs.retain then ["retain"]
    else if attrs.weak then ["weak"] else []
  (if attrs.readOnly then [Text.ofString "readonly"] else []) ++ ownership ++
    (if attrs.nonatomic then [Text.ofString "nonatomic"] else []) ++
    (if attrs.getter.isEmpty then [] else ["getter=" ++ attrs.getter]) ++
    (if attrs.setter.isEmpty then [] else ["setter=" ++ attrs.setter])

/-- The list of attributes in parentheses, nothing if it is empty. -/
def render (attrs : PropertyAttributes) : Text :=
  if attrs.list.isEmpty then [] else "(" ++ Text.joinWith ", " attrs.list ++ ")"

end PropertyAttributes

end ObjcLens
