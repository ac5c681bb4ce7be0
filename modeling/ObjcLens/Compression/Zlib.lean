import ObjcLens.Bytes
import ObjcLens.Compression.Inflate

/-!
# Compressed data with a checksum

A deflated stream between a header of two bytes and a checksum of the unpacked data.
`Zlib.unpack` unpacks a number of bytes. The checksum is looked at only if the end of the stream
is reached on the way.
-/

namespace ObjcLens

/-- Why compressed data cannot be unpacked. -/
inductive ZlibError where
  /-- The header is malformed. -/
  | header
  /-- A dictionary is needed. -/
  | dictionary
  /-- The checksum does not fit the data. -/
  | checksum
  /-- The stream is faulty. -/
  | stream (fault : InflateError)
deriving DecidableEq, Repr

/-- The text of an error. -/
def ZlibError.message : ZlibError → Text
  | .header => "zlib: invalid header"
  | .dictionary => "zlib: invalid dictionary"
  | .checksum => "zlib: invalid checksum"
  | .stream fault => fault.message

namespace Zlib

/-- The modulus of the checksum. -/
def modulus : Nat := 65521

/-- The Adler-32 checksum. -/
def checksum (bytes : Array UInt8) : Nat :=
  let (low, high) := bytes.foldl (fun (low, high) b =>
    let low := (low + b.toNat) % modulus
    (low, (high + low) % modulus)) ((1, 0) : Nat × Nat)
  high * 65536 + low

/-- The stream behind a header. A dictionary can only be the empty one. -/
def openStream (bytes : Text) : Except ZlibError Text := do
  match bytes with
  | method :: flags :: rest =>
    if method % 16 ≠ 8 || 7 < method / 16 || (method.toNat * 256 + flags.toNat) % 31 ≠ 0 then
      throw .header
    if flags &&& 0x20 = 0 then return rest
    if rest.length < 4 then throw (.stream .unexpectedEnd)
    if ByteOrder.big.toNat (rest.take 4) ≠ checksum #[] then throw .dictionary
    return rest.drop 4
  | _ => throw (.stream .unexpectedEnd)

/-- What the end of a stream says: its fault, or that of the checksum behind it. -/
def verdict (result : Except InflateError Unit) (s : Inflate.State) : Except ZlibError Unit := do
  match result with
  | .error fault => throw (.stream fault)
  | .ok () =>
    if s.input.length < 4 then throw (.stream .unexpectedEnd)
    if ByteOrder.big.toNat (s.input.take 4) ≠ checksum s.output then throw .checksum

/-- As many bytes as asked for, or as there are. -/
def unpack (bytes : Text) (count : Nat) : Except ZlibError Text := do
  let (result, s) := Inflate.run (← openStream bytes)
  let total := s.output.size
  if total < count || (count = total && s.handedOver < total) then verdict result s
  return (s.output.extract 0 count).toList

end Zlib

end ObjcLens
