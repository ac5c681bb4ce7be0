import ObjcLens.Text.Numeral

/-!
# Inflating

Deflated data is a sequence of blocks: stored bytes, or symbols of a prefix code that stand for
bytes and for copies of earlier output. `Inflate.run` unpacks a stream. It reads no byte before
it is needed, so what follows the stream is left over.
-/

namespace ObjcLens

/-- Why a stream cannot be unpacked. -/
inductive InflateError where
  /-- The stream ends too early. -/
  | unexpectedEnd
  /-- The stream is malformed before an offset. -/
  | corrupt (offset : Nat)
deriving DecidableEq, Repr

/-- The text of an error. -/
def InflateError.message : InflateError → Text
  | .unexpectedEnd => "unexpected EOF"
  | .corrupt offset => "flate: corrupt input before offset " ++ Text.dec offset

namespace Inflate

/-- The state of unpacking. -/
structure State where
  /-- The bytes that were not read yet. -/
  input : Text
  /-- The number of bytes that were read. -/
  offset : Nat := 0
  /-- The bits that were read and not used yet, the next one lowest. -/
  bits : Nat := 0
  /-- The number of these bits. -/
  bitCount : Nat := 0
  /-- The output. -/
  output : Array UInt8 := #[]
  /-- How much of the output was handed over. -/
  handedOver : Nat := 0

/-- Steps of unpacking. The state survives an error. -/
abbrev Step := ExceptT InflateError (StateM State)

/-- The output is handed over in windows of this size. -/
def windowSize : Nat := 32768

/-- Fails because the stream is malformed. -/
def corrupt {α : Type} : Step α := do throw (.corrupt (← get).offset)

/-- Reads one byte of the input into the bits. -/
def readByte : Step Unit := do
  let s ← get
  match s.input with
  | [] => throw .unexpectedEnd
  | b :: rest =>
    set { s with
      input := rest
      offset := s.offset + 1
      bits := s.bits + b.toNat * Nat.pow 2 s.bitCount
      bitCount := s.bitCount + 8 }

/-- Reads bytes until there are enough bits. The fuel bounds the number of bytes. -/
def needBits (count : Nat) : Nat → Step Unit
  | 0 => pure ()
  | fuel + 1 => do
    if (← get).bitCount < count then
      readByte
      needBits count fuel

/-- Drops bits that were used. -/
def dropBits (count : Nat) : Step Unit :=
  modify fun s => { s with bits := s.bits / Nat.pow 2 count, bitCount := s.bitCount - count }

/-- The number that the next bits stand for, the lowest bit first. -/
def takeBits (count : Nat) : Step Nat := do
  needBits count 4
  let value := (← get).bits % Nat.pow 2 count
  dropBits count
  return value

/-- Adds a byte to the output. A full window is handed over. -/
def emit (b : UInt8) : Step Unit :=
  modify fun s =>
    let output := s.output.push b
    { s with
      output
      handedOver := if output.size % windowSize = 0 then output.size else s.handedOver }

/-- A prefix code: for every length the number of codes, and the symbols in the order of their
codes. -/
structure Code where
  /-- The number of codes of each length, from length one on. -/
  counts : List Nat
  /-- The symbols. -/
  symbols : Array Nat
  /-- The number of bits that are read before a symbol is looked up. -/
  least : Nat

namespace Code

/-- The longest code. -/
def maxLength : Nat := 15

/-- The code with given lengths for the symbols, where zero means that the symbol does not occur.
The lengths must use up all bit sequences, except that a code may be empty or have one symbol of
length one. -/
def ofLengths? (lengths : List Nat) : Option Code :=
  let counts := (List.range maxLength).map fun i => lengths.count (i + 1)
  let symbols := (List.range maxLength).flatMap fun i =>
    (lengths.zipIdx.filter fun entry => entry.1 = i + 1).map (·.2)
  let used := lengths.filter (· ≠ 0)
  let longest := used.foldl max 0
  let total := counts.zipIdx.foldl (fun total (count, i) =>
    total + count * Nat.pow 2 (maxLength - (i + 1))) 0
  let isComplete := total = Nat.pow 2 maxLength
  let isDegenerate := longest = 1 && used.length = 1
  if longest = 0 || isComplete || isDegenerate then
    some ⟨counts, symbols.toArray, used.foldl min (used.headD 0)⟩
  else none

/-- The symbol that some bits start with, and the length of its code. -/
def lookup (symbols : Array Nat) :
    (counts : List Nat) → (length code first index bits : Nat) → Option (Nat × Nat)
  | [], _, _, _, _, _ => none
  | count :: rest, length, code, first, index, bits =>
    let code := 2 * code + bits % 2
    if code < first + count then some (symbols.getD (index + code - first) 0, length)
    else lookup symbols rest (length + 1) code (2 * (first + count)) (index + count) (bits / 2)

end Code

/-- The next symbol, looked up again whenever it needs more bits than there are. The fuel bounds
the number of times. -/
def readSymbolFuel (code : Code) : Nat → Nat → Step Nat
  | 0, _ => corrupt
  | fuel + 1, needed => do
    needBits needed 4
    let s ← get
    match Code.lookup code.symbols code.counts 1 0 0 0 s.bits with
    | none => corrupt
    | some (symbol, length) =>
      if length ≤ s.bitCount then
        dropBits length
        return symbol
      else readSymbolFuel code fuel length

/-- The next symbol of a code. -/
def readSymbol (code : Code) : Step Nat := readSymbolFuel code (Code.maxLength + 1) code.least

/-- The order in which the lengths of the code for lengths are given. -/
def lengthOrder : List Nat := [16, 17, 18, 0, 8, 7, 9, 6, 10, 5, 11, 4, 12, 3, 13, 2, 14, 1, 15]

/-- The code of a list of lengths, which must be a code. -/
def codeOf (lengths : List Nat) : Step Code :=
  match Code.ofLengths? lengths with
  | some code => pure code
  | none => corrupt

/-- A number of lengths, the last one first, from those that were read before on. The fuel bounds
the number of symbols. -/
def readLengths (code : Code) (total : Nat) : Nat → List Nat → Step (List Nat)
  | 0, lengths => pure lengths
  | fuel + 1, lengths => do
    if total ≤ lengths.length then return lengths
    let symbol ← readSymbol code
    if symbol < 16 then readLengths code total fuel (symbol :: lengths)
    else
      if symbol = 16 && lengths.isEmpty then corrupt
      let value := if symbol = 16 then lengths.headD 0 else 0
      let extra ← takeBits (if symbol = 16 then 2 else if symbol = 17 then 3 else 7)
      let count := extra + (if symbol = 18 then 11 else 3)
      if total < lengths.length + count then corrupt
      readLengths code total fuel (List.replicate count value ++ lengths)

/-- The number of literal and length symbols at most. -/
def maxLiterals : Nat := 286

/-- The number of distance symbols at most. -/
def maxDistances : Nat := 30

/-- The symbol that ends a block. -/
def endOfBlock : Nat := 256

/-- The two codes at the start of a block. -/
def readCodes : Step (Code × Code) := do
  needBits 14 4
  let literals := (← get).bits % 32 + 257
  if maxLiterals < literals then corrupt
  let distances := (← get).bits / 32 % 32 + 1
  if maxDistances < distances then corrupt
  let lengthCount := (← get).bits / 1024 % 16 + 4
  dropBits 14
  let given ← (List.range lengthCount).mapM fun _ => takeBits 3
  let lengthOf (symbol : Nat) : Nat :=
    (((lengthOrder.zip given).find? fun entry => entry.1 = symbol).map (·.2)).getD 0
  let code ← codeOf ((List.range 19).map lengthOf)
  let total := literals + distances
  let lengths := (← readLengths code total total []).reverse
  let literalCode ← codeOf (lengths.take literals)
  let distanceCode ← codeOf (lengths.drop literals)
  let least := max literalCode.least (lengths.getD endOfBlock 0)
  return ({ literalCode with least }, distanceCode)

/-- The code for literals that needs not be given. -/
def fixedLiterals : List Nat :=
  List.replicate 144 8 ++ List.replicate 112 9 ++ List.replicate 24 7 ++ List.replicate 8 8

/-- The length of a copy: its least value and the number of further bits. -/
def copyLength? (symbol : Nat) : Option (Nat × Nat) :=
  if symbol < 265 then some (symbol - 254, 0)
  else if symbol < 285 then
    let extra := (symbol - 261) / 4
    some ((symbol - 261) % 4 * Nat.pow 2 extra + Nat.pow 2 (extra + 2) + 3, extra)
  else if symbol < maxLiterals then some (258, 0)
  else none

/-- The five bits in reverse order. -/
def reverse5 (n : Nat) : Nat :=
  n % 2 * 16 + n / 2 % 2 * 8 + n / 4 % 2 * 4 + n / 8 % 2 * 2 + n / 16 % 2

/-- The distance that a symbol and further bits stand for. -/
def readDistance (symbol : Nat) : Step Nat := do
  if symbol < 4 then return symbol + 1
  else if symbol < maxDistances then
    let extra := (symbol - 2) / 2
    let low ← takeBits extra
    return Nat.pow 2 (extra + 1) + 1 + symbol % 2 * Nat.pow 2 extra + low
  else corrupt

/-- Copies earlier output. -/
def copyBack (distance : Nat) : Nat → Step Unit
  | 0 => pure ()
  | count + 1 => do
    let s ← get
    emit (s.output.getD (s.output.size - distance) 0)
    copyBack distance count

/-- The symbols of a block, up to its end. Without a code for distances they are numbers of five
bits. The fuel bounds the number of symbols. -/
def readSymbols (literals : Code) (distances : Option Code) : Nat → Step Unit
  | 0 => pure ()
  | fuel + 1 => do
    let symbol ← readSymbol literals
    if symbol < 256 then
      emit symbol.toUInt8
      readSymbols literals distances fuel
    else if symbol = endOfBlock then pure ()
    else
      match copyLength? symbol with
      | none => corrupt
      | some (least, extra) =>
        let length := least + (← takeBits extra)
        let symbol ← match distances with
          | some code => readSymbol code
          | none => reverse5 <$> takeBits 5
        let distance ← readDistance symbol
        if min (← get).output.size windowSize < distance then corrupt
        copyBack distance length
        readSymbols literals distances fuel

/-- Copies stored bytes. -/
def copyStored : Nat → Step Unit
  | 0 => pure ()
  | count + 1 => do
    let s ← get
    match s.input with
    | [] => throw .unexpectedEnd
    | b :: rest =>
      set { s with input := rest, offset := s.offset + 1 }
      emit b
      copyStored count

/-- A block of stored bytes. An empty block that is not the last hands the output over. -/
def readStored (isLast : Bool) : Step Unit := do
  modify fun s => { s with bits := 0, bitCount := 0 }
  let s ← get
  let head := s.input.take 4
  set { s with input := s.input.drop 4, offset := s.offset + head.length }
  if head.length < 4 then throw .unexpectedEnd
  let number (low high : Nat) : Nat := (head.getD low 0).toNat + 256 * (head.getD high 0).toNat
  let length := number 0 1
  if length + number 2 3 ≠ 65535 then corrupt
  if length = 0 && !isLast then modify fun s => { s with handedOver := s.output.size }
  copyStored length

/-- All blocks. The fuel bounds their number and that of their symbols. -/
def readBlocks (symbolFuel : Nat) : Nat → Step Unit
  | 0 => pure ()
  | fuel + 1 => do
    let head ← takeBits 3
    let isLast := head % 2 = 1
    match head / 2 with
    | 0 => readStored isLast
    | 1 => do
      let literals ← codeOf fixedLiterals
      readSymbols literals none symbolFuel
    | 2 => do
      let (literals, distances) ← readCodes
      readSymbols literals (some distances) symbolFuel
    | _ => corrupt
    if isLast then pure () else readBlocks symbolFuel fuel

/-- Unpacks a stream: the state at its end, or where it turned out to be faulty. -/
def run (input : Text) : Except InflateError Unit × State :=
  let fuel := 8 * input.length + 8
  (readBlocks fuel fuel).run { input }

end Inflate

end ObjcLens
