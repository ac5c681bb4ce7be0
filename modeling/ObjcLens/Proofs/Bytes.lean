import Mathlib
import ObjcLens.Bytes

/-!
# Numbers are read back from their bytes

A number that fits is read back from its bytes in either byte order, and small numbers survive the
passage between unsigned words and integers.

## Main results

* `ByteOrder.toNat_bytes`: a number is read back from its bytes.
* `ByteOrder.word32_bytes32`, `ByteOrder.word64_bytes64`: words in front of other bytes.
* `untilZero_append`: text in front of the first zero byte.
* `toNat_wrap64`, `signed64_of_lt`: words that stand for small numbers.
* `signed64_wrap64`: integers that are reduced to a word.
-/

namespace ObjcLens

namespace ByteOrder

@[simp]
theorem length_littleBytes (count n : Nat) : (littleBytes count n).length = count := by
  induction count generalizing n with
  | zero => rfl
  | succ count ih => rw [littleBytes, List.length_cons, ih]

@[simp]
theorem length_bytes (order : ByteOrder) (count n : Nat) :
    (order.bytes count n).length = count := by
  cases order <;> simp [bytes]

/-- A word of 32 bits has four bytes in either order. -/
@[simp]
theorem length_bytes32 (order : ByteOrder) (n : UInt32) : (order.bytes32 n).length = 4 :=
  length_bytes order 4 n.toNat

/-- A word of 64 bits has eight bytes in either order. -/
@[simp]
theorem length_bytes64 (order : ByteOrder) (n : UInt64) : (order.bytes64 n).length = 8 :=
  length_bytes order 8 n.toNat

/-- A number is read back from its bytes, least significant byte first. -/
theorem littleToNat_littleBytes {count n : Nat} (h : n < 256 ^ count) :
    littleToNat (littleBytes count n) = n := by
  induction count generalizing n with
  | zero =>
    have hzero : n = 0 := by simpa using h
    rw [hzero]
    rfl
  | succ count ih =>
    have hbyte : (n % 256).toUInt8.toNat = n % 256 :=
      UInt8.toNat_ofNat_of_lt' (Nat.mod_lt n (by decide))
    have hrest : n / 256 < 256 ^ count := by
      rw [Nat.div_lt_iff_lt_mul (by decide), ← pow_succ]
      exact h
    rw [littleBytes, littleToNat, ih hrest, hbyte]
    exact Nat.mod_add_div n 256

/-- A number is read back from its bytes. -/
theorem toNat_bytes (order : ByteOrder) {count n : Nat} (h : n < 256 ^ count) :
    order.toNat (order.bytes count n) = n := by
  cases order with
  | little => exact littleToNat_littleBytes h
  | big => rw [bytes, toNat, List.reverse_reverse, littleToNat_littleBytes h]

/-- A 32-bit number is read back in front of other bytes. -/
@[simp]
theorem word32_bytes32 (order : ByteOrder) (n : UInt32) (rest : Text) :
    order.word32 (order.bytes32 n ++ rest) = n := by
  rw [word32, bytes32, List.take_left' (length_bytes order 4 n.toNat),
    toNat_bytes order n.toNat_lt]
  exact UInt32.ofNat_toNat

/-- A word is read as it was written. -/
@[simp]
theorem word32_bytes32_self (order : ByteOrder) (n : UInt32) :
    order.word32 (order.bytes32 n) = n := by
  simpa using word32_bytes32 order n []

/-- A 64-bit number is read back in front of other bytes. -/
@[simp]
theorem word64_bytes64 (order : ByteOrder) (n : UInt64) (rest : Text) :
    order.word64 (order.bytes64 n ++ rest) = n := by
  rw [word64, bytes64, List.take_left' (length_bytes order 8 n.toNat),
    toNat_bytes order n.toNat_lt]
  exact UInt64.ofNat_toNat

end ByteOrder

/-- Text without a zero byte is kept. -/
theorem untilZero_append {bytes : Text} (h : 0 ∉ bytes) (rest : Text) :
    untilZero (bytes ++ rest) = bytes ++ untilZero rest :=
  List.takeWhile_append_of_pos fun _ hb => bne_iff_ne.2 fun heq => h (heq ▸ hb)

/-- A number below the word size is kept. -/
theorem toNat_wrap64 {n : Nat} (h : n < 2 ^ 64) : (wrap64 n).toNat = n := by
  have hmod : ((n : Int) % 2 ^ 64).toNat = n := by omega
  rw [wrap64, UInt64.ofInt, hmod]
  exact UInt64.toNat_ofNat_of_lt' h

/-- A word in the lower half is read as the same number with a sign. -/
theorem signed64_of_lt {n : UInt64} (h : n.toNat < 2 ^ 63) : signed64 n = n.toNat := by
  have hbits : n.toBitVec.toNat = n.toNat := rfl
  rw [signed64, Int64.toInt, UInt64.toBitVec_toInt64, BitVec.toInt_eq_toNat_cond, hbits,
    if_pos (by omega)]

/-- An integer that is reduced to a word is read back up to a multiple of the word size. -/
theorem signed64_wrap64 (i : Int) : signed64 (wrap64 i) = i.bmod (2 ^ 64) := by
  have hpos : (0 : Int) ≤ i % 2 ^ 64 := Int.emod_nonneg i (by decide)
  calc signed64 (wrap64 i)
      = (BitVec.ofNat 64 (i % 2 ^ 64).toNat).toInt := rfl
    _ = ((i % 2 ^ 64).toNat : Int).bmod (2 ^ 64) := by rw [BitVec.toInt_ofNat']
    _ = i.bmod (2 ^ 64) := by
      rw [Int.toNat_of_nonneg hpos]
      exact Int.emod_bmod i (2 ^ 64)

end ObjcLens
