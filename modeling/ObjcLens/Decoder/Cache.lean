import ObjcLens.Decoder.Dialogue
import ObjcLens.Lru

/-!
# Remembered decodings

Decoding an encoding is a function of its text, so the result can be remembered. A
`DecoderCache` remembers the most recently used type encodings and method encodings, in two
tables of the same capacity.
-/

namespace ObjcLens

/-- The decodings that are remembered. -/
structure DecoderCache where
  /-- Type encodings and their types. -/
  types : Lru Text ObjcType
  /-- Method encodings and their signatures. -/
  methods : Lru Text MethodType

namespace DecoderCache

/-- The capacity when none is asked for. -/
def defaultCapacity : Nat := 4096

/-- A cache without entries. A capacity that is not positive means the default. -/
def empty (capacity : Int) : DecoderCache :=
  let capacity := if capacity ≤ 0 then defaultCapacity else capacity.toNat
  ⟨Lru.empty capacity, Lru.empty capacity⟩

/-- The number of remembered decodings. -/
def size (cache : DecoderCache) : Nat := cache.types.size + cache.methods.size

/-- The type of an encoding; the flag tells that it had to be decoded. -/
def type (cache : DecoderCache) (encoding : Text) : ObjcType × Bool × DecoderCache :=
  let (type, decoded, types) := cache.types.fetch ObjcType.parse encoding
  (type, decoded, { cache with types })

/-- The signature of an encoding; the flag tells that it had to be decoded. -/
def method (cache : DecoderCache) (encoding : Text) : MethodType × Bool × DecoderCache :=
  let (type, decoded, methods) := cache.methods.fetch MethodType.decode encoding
  (type, decoded, { cache with methods })

/-- The cache after a request. -/
def answer (cache : DecoderCache) : DecodeRequest → DecoderCache
  | .type encoding => (cache.type encoding).2.2
  | .method encoding => (cache.method encoding).2.2

/-- The cache after several requests. -/
def answerAll (cache : DecoderCache) (requests : List DecodeRequest) : DecoderCache :=
  requests.foldl answer cache

end DecoderCache

end ObjcLens
