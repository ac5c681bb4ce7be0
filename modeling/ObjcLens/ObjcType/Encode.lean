import ObjcLens.ObjcType.Basic

/-!
# Writing type encodings

`ObjcType.encode` writes a type tree as a type encoding. It looks at one node at a time and
never at the neighbours, so the text of a tree is the concatenation of the texts of its parts.
-/

namespace ObjcLens

namespace AggregateKind

/-- The bracket that opens an aggregate. -/
def opener : AggregateKind → UInt8
  | .struct => byte '{'
  | .union => byte '('

/-- The bracket that closes an aggregate. -/
def closer : AggregateKind → UInt8
  | .struct => byte '}'
  | .union => byte ')'

end AggregateKind

namespace ObjcType

/-- A name between quotation marks. -/
def quoted (name : Text) : Text := byte '"' :: name ++ [byte '"']

/-- The class and protocol names of an object, quoted, or nothing if it has neither. -/
def encodeObjectNames (name : Text) (protocols : List Text) : Text :=
  if name.isEmpty && protocols.isEmpty then []
  else quoted (name ++ protocols.flatMap fun p => byte '<' :: p ++ [byte '>'])

mutual

/-- The type encoding of a type. -/
def encode : ObjcType → Text
  | .unknown raw => raw
  | .primitive quals code => quals ++ [code]
  | .pointer quals elem => quals ++ byte '^' :: elem.encode
  | .array quals length elem =>
    quals ++ byte '[' :: Text.dec length ++ elem.encode ++ [byte ']']
  | .tag quals kind name => quals ++ kind.opener :: name ++ [kind.closer]
  | .aggregate quals kind name members =>
    quals ++ kind.opener :: name ++ byte '=' :: encodeMembers members ++ [kind.closer]
  | .bitfield quals bits => quals ++ byte 'b' :: Text.dec bits
  | .function quals => quals ++ [byte '^', byte '?']
  | .block quals => quals ++ [byte '@', byte '?']
  | .signature quals result params =>
    quals ++ byte '@' :: byte '?' :: byte '<' :: result.encode ++ encodeAll params ++ [byte '>']
  | .object quals name protocols => quals ++ byte '@' :: encodeObjectNames name protocols
  | .selector quals => quals ++ [byte ':']
  | .classObject quals => quals ++ [byte '#']

/-- The encodings of the members of an aggregate, one after the other: the quoted name if there
is one, the type, and the width if there is one. -/
def encodeMembers : List (Member ObjcType) → Text
  | [] => []
  | ⟨name, type, width⟩ :: rest =>
    (if name.isEmpty then [] else quoted name) ++ type.encode ++
      (if width = 0 then [] else byte ':' :: Text.dec width) ++ encodeMembers rest

/-- The encodings of several types, one after the other. -/
def encodeAll : List ObjcType → Text
  | [] => []
  | type :: rest => type.encode ++ encodeAll rest

end

end ObjcType

end ObjcLens
