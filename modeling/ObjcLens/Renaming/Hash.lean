import ObjcLens.Bytes

/-!
# Hashing names

MurmurHash3 with 128 bits for 64-bit machines, of which the first half is used. Both halves
start from the seed.
-/

namespace ObjcLens

namespace Murmur

/-- The two halves of the state. -/
structure Halves where
  /-- The first half. -/
  first : UInt64
  /-- The second half. -/
  second : UInt64

/-- The word with its bits rotated to the left. -/
def rotate (x : UInt64) (count : UInt64) : UInt64 := (x <<< count) ||| (x >>> (64 - count))

/-- The first multiplier. -/
def factor1 : UInt64 := 0x87c37b91114253d5

/-- The second multiplier. -/
def factor2 : UInt64 := 0x4cf5ad432745937f

/-- A word of the first kind, mixed. -/
def mix1 (k : UInt64) : UInt64 := rotate (k * factor1) 31 * factor2

/-- A word of the second kind, mixed. -/
def mix2 (k : UInt64) : UInt64 := rotate (k * factor2) 33 * factor1

/-- The word with every bit spread over all others. -/
def avalanche (k : UInt64) : UInt64 :=
  let k := (k ^^^ (k >>> 33)) * 0xff51afd7ed558ccd
  let k := (k ^^^ (k >>> 33)) * 0xc4ceb9fe1a85ec53
  k ^^^ (k >>> 33)

/-- The state after a block of two words. -/
def block (h : Halves) (k1 k2 : UInt64) : Halves :=
  let first := (rotate (h.first ^^^ mix1 k1) 27 + h.second) * 5 + 0x52dce729
  let second := (rotate (h.second ^^^ mix2 k2) 31 + first) * 5 + 0x38495ab5
  ⟨first, second⟩

/-- The word of at most eight bytes, the first one lowest. -/
def word (bytes : Text) : UInt64 := bytes.foldr (fun b k => (k <<< 8) ||| b.toUInt64) 0

/-- The state after all bytes. The last block may be short; the fuel bounds the number of
blocks. -/
def absorb : Nat → Halves → Text → Halves
  | 0, h, _ => h
  | fuel + 1, h, bytes =>
    if bytes.length < 16 then
      ⟨h.first ^^^ mix1 (word (bytes.take 8)), h.second ^^^ mix2 (word (bytes.drop 8))⟩
    else
      absorb fuel (block h (word (bytes.take 8)) (word ((bytes.drop 8).take 8))) (bytes.drop 16)

/-- The first half of the hash of bytes. -/
def hash (seed : UInt64) (bytes : Text) : UInt64 :=
  let h := absorb (bytes.length / 16 + 1) ⟨seed, seed⟩ bytes
  let length := bytes.length.toUInt64
  let first := (h.first ^^^ length) + (h.second ^^^ length)
  let second := (h.second ^^^ length) + first
  avalanche first + avalanche second

end Murmur

end ObjcLens
