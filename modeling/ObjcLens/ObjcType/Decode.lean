import ObjcLens.ObjcType.Basic
import ObjcLens.ObjcType.Encode

/-!
# Reading type encodings

A type encoding is read from the left, and every reading function returns what it read with the
text behind it. Reading is all or nothing: `ObjcType.decode` gives a tree without undecodable
parts, or the whole text as one unknown type.

* `ObjcType.read`: one type, nested at most to a given depth.
* `ObjcType.decode`: the first type of a text; `ObjcType.parse`: a text that is one type.
* `MethodType.decode`: a method signature.

Quoted text behind `@` is the class of the object, except among the named members of an
aggregate, where it may be the name of the next member: there it is a class only if another
quotation mark, a closing bracket or the end of the text follows.
-/

namespace ObjcLens

/-- A run of decimal digits and the text behind it. The digits are consumed in any case; they
have no value if there are none or if it does not fit a signed 64-bit number. -/
def readNumber (s : Text) : Option Nat × Text :=
  let digits := s.takeWhile Text.isDigit
  let value := Text.digitsValue digits
  (if digits.isEmpty || Nat.pow 2 63 ≤ value then none else some value, s.dropWhile Text.isDigit)

/-- A number with an optional minus sign. -/
def readSigned (s : Text) : Int × Text :=
  match s with
  | c :: d :: rest =>
    if c = byte '-' && Text.isDigit d then
      let (value, rest) := readNumber (d :: rest)
      (-(value.getD 0 : Int), rest)
    else
      let (value, rest) := readNumber s
      (value.getD 0, rest)
  | _ =>
    let (value, rest) := readNumber s
    (value.getD 0, rest)

namespace ObjcType

/-- Types may be nested this deep. -/
def maxDepth : Nat := 64

/-- The name of an aggregate: everything up to the first equals sign or closing bracket that
stands outside angle brackets. That character is left in front of the rest. -/
def readTag (closer : UInt8) (depth : Int) : Text → Option (Text × Text)
  | [] => none
  | c :: rest =>
    if depth = 0 && (c = byte '=' || c = closer) then some ([], c :: rest)
    else
      let depth := if c = byte '<' then depth + 1 else if c = byte '>' then depth - 1 else depth
      (readTag closer depth rest).map fun (name, rest) => (c :: name, rest)

/-- The class name and the protocol names inside the quotation marks of an object. -/
def objectNames (quotedText : Text) : Text × List Text :=
  let protocols := quotedText.dropWhile (· != byte '<')
  let strip := Text.trim fun c => c = byte '<' || c = byte '>'
  (quotedText.takeWhile (· != byte '<'),
    ((Text.splitOnText "><" protocols).map strip).filter fun p => !p.isEmpty)

/-- The quoted names of an object and the text behind them. Among named members the quoted text
is left alone if it has to be the name of the next member. -/
def readObjectNames (named : Bool) (s : Text) : (Text × List Text) × Text :=
  match s with
  | c :: rest =>
    if c ≠ byte '"' then (([], []), s)
    else match Text.cut? (byte '"') rest with
      | none => (([], []), s)
      | some (names, rest) =>
        let isClass := !named || match rest with
          | [] => true
          | d :: _ => d = byte '"' || d = byte '}' || d = byte ')'
        if isClass then (objectNames names, rest) else (([], []), s)
  | [] => (([], []), [])

/-- The name in front of a member, if there is one. It is an error if its quotation mark is not
closed. -/
def readMemberName (s : Text) : Option (Text × Text) :=
  match s with
  | c :: rest => if c = byte '"' then Text.cut? (byte '"') rest else some ([], s)
  | [] => some ([], [])

/-- The bit width behind a member, zero if there is none. -/
def readWidth (s : Text) : Nat × Text :=
  match s with
  | c :: d :: rest =>
    if c = byte ':' && Text.isDigit d then
      let (value, rest) := readNumber (d :: rest)
      (value.getD 0, rest)
    else (0, s)
  | _ => (0, s)

/-- Items read one after the other up to a closing byte, which is consumed. The fuel bounds
their number; each takes at least one byte, so the length of the text is enough. -/
def readUntil {α : Type} (closer : UInt8) (item : Text → Option (α × Text)) :
    Nat → Text → Option (List α × Text)
  | 0, _ => none
  | _, [] => none
  | fuel + 1, c :: rest =>
    if c = closer then some ([], rest)
    else do
      let (first, rest) ← item (c :: rest)
      let (others, rest) ← readUntil closer item fuel rest
      return (first :: others, rest)

/-- One member of an aggregate: name, type and width. -/
def readMember (readType : Text → Option (ObjcType × Text)) (s : Text) :
    Option (Member ObjcType × Text) := do
  let (name, rest) ← readMemberName s
  let (type, rest) ← readType rest
  let (width, rest) := readWidth rest
  return (⟨name, type, width⟩, rest)

/-- An aggregate behind its opening bracket. The members are named if the first one is. -/
def readAggregate (readType : Bool → Text → Option (ObjcType × Text)) (quals : Text)
    (kind : AggregateKind) (s : Text) : Option (ObjcType × Text) := do
  let (name, rest) ← readTag kind.closer 0 s
  match rest with
  | [] => none
  | c :: rest =>
    if c = kind.closer then return (.tag quals kind name, rest)
    else
      let named := rest.head? == some (byte '"')
      let (members, rest) ← readUntil kind.closer (readMember (readType named)) rest.length rest
      return (.aggregate quals kind name members, rest)

/-- A block behind its question mark. -/
def readBlock (readType : Text → Option (ObjcType × Text)) (quals : Text) (s : Text) :
    Option (ObjcType × Text) :=
  match s with
  | c :: rest =>
    if c = byte '<' then do
      let (result, rest) ← readType rest
      let (params, rest) ← readUntil (byte '>') readType rest.length rest
      return (.signature quals result params, rest)
    else some (.block quals, s)
  | [] => some (.block quals, [])

/-- The type behind its qualifiers. -/
def readUnqualified (readType : Bool → Text → Option (ObjcType × Text)) (named : Bool)
    (quals : Text) (code : UInt8) (rest : Text) : Option (ObjcType × Text) :=
  match Char.ofUInt8 code with
  | '^' =>
    if rest.head? = some (byte '?') then some (.function quals, rest.drop 1)
    else do
      let (elem, rest) ← readType false rest
      return (.pointer quals elem, rest)
  | '[' => do
    let (length, rest) := readNumber rest
    let (elem, rest) ← readType false rest
    match rest with
    | c :: rest => if c = byte ']' then return (.array quals (length.getD 0) elem, rest) else none
    | [] => none
  | '{' => readAggregate readType quals .struct rest
  | '(' => readAggregate readType quals .union rest
  | 'b' => do
    let (bits, rest) := readNumber rest
    return (.bitfield quals (← bits), rest)
  | '@' =>
    if rest.head? = some (byte '?') then readBlock (readType false) quals (rest.drop 1)
    else
      let ((name, protocols), rest) := readObjectNames named rest
      some (.object quals name protocols, rest)
  | ':' => some (.selector quals, rest)
  | '#' => some (.classObject quals, rest)
  | _ => if (primitiveName? code).isSome then some (.primitive quals code, rest) else none

/-- One type, nested at most to a depth, and the text behind it. The flag tells that the type
is that of a member of an aggregate whose members are named. -/
def read : Nat → Bool → Text → Option (ObjcType × Text)
  | 0, _, _ => none
  | depth + 1, named, s =>
    match s.dropWhile isQualifier with
    | [] => none
    | code :: rest => readUnqualified (read depth) named (s.takeWhile isQualifier) code rest

/-- The first type of a text and the text behind it. What cannot be decoded is one unknown type
that takes all of the text. -/
def decode (s : Text) : ObjcType × Text := (read maxDepth false s).getD (.unknown s, [])

/-- The type that a text is the encoding of, unknown if there is text behind it. -/
def parse (s : Text) : ObjcType :=
  match decode s with
  | (type, []) => type
  | _ => .unknown s

end ObjcType

namespace MethodType

/-- The parameters of a method: types with their frame offsets, each possibly marked by a plus
sign as passed in a register. Text that is no type is one unknown last parameter. The fuel
bounds the number of parameters. -/
def readParams : Nat → Text → List Param
  | 0, _ => []
  | _, [] => []
  | fuel + 1, s =>
    match ObjcType.read ObjcType.maxDepth false s with
    | none => [⟨.unknown s, 0⟩]
    | some (type, rest) =>
      let rest := Text.dropLeading "+" rest
      let (offset, rest) := readSigned rest
      ⟨type, offset⟩ :: readParams fuel rest

/-- The signature that a method encoding describes: the result type, the size of the argument
frame, and the parameters. -/
def decode (s : Text) : MethodType :=
  match ObjcType.read ObjcType.maxDepth false s with
  | none => ⟨.unknown s, [], 0⟩
  | some (result, rest) =>
    let (stackSize, rest) := readNumber rest
    ⟨result, readParams rest.length rest, stackSize.getD 0⟩

end MethodType

end ObjcLens
