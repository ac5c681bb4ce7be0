import ObjcLens.Text.Numeral

/-!
# Binary floating-point numbers

Numbers of the binary format with 64 bits, held exactly: a finite one is a sign, a mantissa below
2^53 and a power of two. Reading rounds a decimal number to the nearest of them, a half to the even
mantissa; writing takes the fewest decimal digits that are read back as the same number.

* `Binary64.ofLiteral?`: the number that a decimal literal stands for.
* `Binary64.text`: the number in positional notation.
* `Binary64.truncate`: the whole part.
-/

namespace ObjcLens

/-- A number of the binary floating-point format with 64 bits. -/
inductive Binary64 where
  /-- No number. -/
  | nan
  /-- A number too large for the format. -/
  | infinite (negative : Bool)
  /-- The mantissa times a power of two. The mantissa is below 2^53, and at least 2^52 unless the
  exponent is the least one. -/
  | finite (negative : Bool) (mantissa : Nat) (exponent : Int)
deriving DecidableEq, Repr, Inhabited

namespace Binary64

/-- The exponent of the numbers next to zero. -/
def leastExponent : Int := -1074

/-- The exponent of the largest numbers. -/
def greatestExponent : Int := 971

/-- A number times a power of two, as a fraction. -/
def scale (numerator denominator : Nat) (exponent : Int) : Nat × Nat :=
  if 0 ≤ exponent then (numerator * Nat.pow 2 exponent.toNat, denominator)
  else (numerator, denominator * Nat.pow 2 (-exponent).toNat)

/-- The whole number nearest to a fraction, a half goes to the even one. -/
def roundDiv (numerator denominator : Nat) : Nat :=
  let whole := numerator / denominator
  let twice := 2 * (numerator % denominator)
  if twice < denominator then whole
  else if denominator < twice then whole + 1
  else whole + whole % 2

/-- The exponent with which the mantissa of a positive fraction has 53 bits, or the least one. -/
def exponentOf (numerator denominator : Nat) : Int :=
  let guess : Int := (numerator.log2 : Int) - (denominator.log2 : Int) - 52
  let (n, d) := scale numerator denominator (-guess)
  max leastExponent (if n / d < Nat.pow 2 52 then guess - 1 else guess)

/-- The number nearest to a positive fraction; nothing if that is too large. -/
def round? (negative : Bool) (numerator denominator : Nat) : Option Binary64 :=
  let exponent := exponentOf numerator denominator
  let (n, d) := scale numerator denominator (-exponent)
  let mantissa := roundDiv n d
  let (mantissa, exponent) :=
    if mantissa = Nat.pow 2 53 then (Nat.pow 2 52, exponent + 1) else (mantissa, exponent)
  if greatestExponent < exponent then none else some (.finite negative mantissa exponent)

/-- Zero with a sign. -/
def zero (negative : Bool) : Binary64 := .finite negative 0 leastExponent

/-- The number nearest to digits times a power of ten; nothing if that is too large. Numbers far
out of range need no arithmetic. -/
def ofDecimal? (negative : Bool) (digits : Text) (shift : Int) : Option Binary64 :=
  let digits := digits.dropWhile (· = 0x30)
  let point : Int := (digits.length : Int) + shift
  if digits.isEmpty || point < -330 then some (zero negative)
  else if 310 < point then none
  else
    let value := Text.digitsValue digits
    if 0 ≤ shift then round? negative (value * Nat.pow 10 shift.toNat) 1
    else round? negative value (Nat.pow 10 (-shift).toNat)

/-- The number nearest to a whole number. -/
def ofInt (value : Int) : Binary64 :=
  if value = 0 then zero false
  else (round? (value < 0) value.natAbs 1).getD (.infinite (value < 0))

/-- The exponent part of a literal: a letter, an optional sign and digits; zero if there is none. -/
def exponentPart? : Text → Option Int
  | [] => some 0
  | letter :: rest =>
    let negative := rest.head? = some 0x2D
    let digits := if negative || rest.head? = some 0x2B then rest.drop 1 else rest
    if (letter = byte 'e' || letter = byte 'E') && !digits.isEmpty && digits.all Text.isDigit then
      some (if negative then -(Text.digitsValue digits : Int) else Text.digitsValue digits)
    else none

/-- The number that a literal stands for: an optional sign, digits with an optional point among
them and an optional exponent. Nothing if the text is no literal or the number is too large. -/
def ofLiteral? (s : Text) : Option Binary64 :=
  let negative := s.head? = some 0x2D
  let body := if negative || s.head? = some 0x2B then s.drop 1 else s
  let before := body.takeWhile Text.isDigit
  let (behind, rest) : Text × Text := match body.drop before.length with
    | 0x2E :: more => (more.takeWhile Text.isDigit, more.dropWhile Text.isDigit)
    | other => ([], other)
  if before.isEmpty && behind.isEmpty then none
  else do
    let exponent ← exponentPart? rest
    ofDecimal? negative (before ++ behind) (exponent - behind.length)

/-- The whole part, as a signed number; nothing if there is none. -/
def truncate? : Binary64 → Option Int
  | .finite negative mantissa exponent =>
    let (n, d) := scale mantissa 1 exponent
    let whole : Int := (n / d : Nat)
    some (if negative then -whole else whole)
  | _ => none

/-- The number differs from zero. What is no number does, too. -/
def isNonzero : Binary64 → Bool
  | .finite _ mantissa _ => mantissa ≠ 0
  | _ => true

/-- A closed or open interval of fractions with one denominator around a value: the decimal
numbers in it are read back as that value. -/
structure Neighbourhood where
  /-- The lower end. -/
  low : Nat
  /-- The value. -/
  value : Nat
  /-- The upper end. -/
  high : Nat
  /-- The denominator of all three. -/
  denominator : Nat
  /-- The ends belong to it. -/
  closed : Bool

/-- The neighbourhood of a positive number. The number below a power of two is half as far away as
the one above. -/
def neighbourhood (mantissa : Nat) (exponent : Int) : Neighbourhood :=
  let below := if mantissa = Nat.pow 2 52 && leastExponent < exponent then 1 else 2
  let (unit, denominator) := scale 1 1 (exponent - 2)
  { low := (4 * mantissa - below) * unit, value := 4 * mantissa * unit,
    high := (4 * mantissa + 2) * unit, denominator, closed := mantissa % 2 = 0 }

/-- A multiple of a power of ten lies in the neighbourhood. -/
def Neighbourhood.holds (n : Neighbourhood) (unit : Nat × Nat) (count : Nat) : Bool :=
  let point := count * unit.1 * n.denominator
  let low := n.low * unit.2
  let high := n.high * unit.2
  if n.closed then low ≤ point && point ≤ high else low < point && point < high

/-- A power of ten as a fraction. -/
def tenPower (exponent : Int) : Nat × Nat :=
  if 0 ≤ exponent then (Nat.pow 10 exponent.toNat, 1) else (1, Nat.pow 10 (-exponent).toNat)

/-- The multiple of a power of ten that lies in the neighbourhood, the nearer one if two do. -/
def Neighbourhood.pick? (n : Neighbourhood) (exponent : Int) : Option Nat :=
  let unit := tenPower exponent
  let numerator := n.value * unit.2
  let denominator := n.denominator * unit.1
  let below := numerator / denominator
  let nearest := roundDiv numerator denominator
  if n.holds unit nearest then some nearest
  else if n.holds unit below then some below
  else if n.holds unit (below + 1) then some (below + 1)
  else none

/-- The largest power of ten with a multiple in the neighbourhood, and the multiple, from an
exponent downwards. The fuel bounds the number of digits. -/
def Neighbourhood.shortest (n : Neighbourhood) : Nat → Int → Nat × Int
  | 0, exponent => ((n.pick? exponent).getD 0, exponent)
  | fuel + 1, exponent =>
    match n.pick? exponent with
    | some count => if count = 0 then n.shortest fuel (exponent - 1) else (count, exponent)
    | none => n.shortest fuel (exponent - 1)

/-- Digits times a power of ten in positional notation. -/
def positional (digits : Text) (shift : Int) : Text :=
  if 0 ≤ shift then digits ++ List.replicate shift.toNat 0x30
  else
    let places := (-shift).toNat
    let shown := Text.zeroPad (places + 1) digits
    shown.take (shown.length - places) ++ 0x2E :: shown.drop (shown.length - places)

/-- The number in positional notation, with the fewest digits that are read back as the same
number. -/
def text : Binary64 → Text
  | .nan => "NaN"
  | .infinite negative => if negative then Text.ofString "-Inf" else Text.ofString "+Inf"
  | .finite negative mantissa exponent =>
    let sign : Text := if negative then [0x2D] else []
    if mantissa = 0 then sign ++ [0x30]
    else
      let around := neighbourhood mantissa exponent
      let digits := (Text.dec (around.high / around.denominator)).length
      let (count, shift) := around.shortest 700 digits
      sign ++ positional (Text.dec count) shift

end Binary64

end ObjcLens
