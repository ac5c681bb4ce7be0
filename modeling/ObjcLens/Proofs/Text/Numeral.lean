import Mathlib
import ObjcLens.ObjcType.Decode

/-!
# Numerals are read back

The numeral of a number consists of digits, is not empty, and its value is the number. A numeral
in front of text that starts with no digit is therefore read back as it was written.

## Main results

* `digitsValue_dec`: the value of a decimal numeral.
* `length_zeroPad_inBase`, `ofDigits_zeroPad_inBase`: numerals with zeros in front.
* `readNumber_dec`, `readSigned_decInt`: reading a decimal numeral that other text follows.
-/

namespace ObjcLens

namespace Text

/-- The digits of a number are below the base. -/
theorem lt_of_mem_digitsRev {base : Nat} (hbase : 0 < base) (fuel n : Nat) :
    ∀ d ∈ digitsRev base fuel n, d < base := by
  induction fuel generalizing n with
  | zero => simp [digitsRev]
  | succ fuel ih =>
    unfold digitsRev
    split
    · simpa
    · simp only [List.mem_cons, forall_eq_or_imp]
      exact ⟨Nat.mod_lt n hbase, ih (n / base)⟩

/-- The digits of a number have its value, if there is fuel for all of them. -/
theorem ofDigits_digitsRev {base : Nat} (hbase : 0 < base) (fuel n : Nat)
    (hfuel : n < base ^ fuel) : Nat.ofDigits base (digitsRev base fuel n) = n := by
  induction fuel generalizing n with
  | zero =>
    have hzero : n = 0 := by simpa using hfuel
    simp [digitsRev, hzero]
  | succ fuel ih =>
    unfold digitsRev
    split
    · simp
    -- the lowest digit is the remainder, and the quotient needs one digit less
    · rw [Nat.ofDigits_cons, ih (n / base)]
      · exact Nat.mod_add_div n base
      · rw [Nat.div_lt_iff_lt_mul hbase]
        rwa [pow_succ] at hfuel

/-- A number has at least one digit. -/
theorem digitsRev_succ_ne_nil (base fuel n : Nat) : digitsRev base (fuel + 1) n ≠ [] := by
  unfold digitsRev
  split <;> simp

/-- The fuel of a numeral is enough for all digits. -/
theorem lt_pow_log2 {base : Nat} (hbase : 2 ≤ base) (n : Nat) : n < base ^ (n.log2 + 1) :=
  calc n < 2 ^ (n.log2 + 1) := Nat.lt_log2_self
    _ ≤ base ^ (n.log2 + 1) := Nat.pow_le_pow_left hbase _

/-- The byte of a decimal digit is a digit of that value. -/
theorem digitByte_spec {d : Nat} (h : d < 10) :
    isDigit (digitByte d) = true ∧ (digitByte d).toNat - 0x30 = d := by
  have hall : ∀ d < 10, isDigit (digitByte d) = true ∧ (digitByte d).toNat - 0x30 = d := by
    decide
  exact hall d h

/-- A decimal numeral is not empty. -/
theorem dec_ne_nil (n : Nat) : dec n ≠ [] := by
  simp [dec, inBase, digitsRev_succ_ne_nil]

/-- A decimal numeral has only digits. -/
theorem isDigit_of_mem_dec {n : Nat} {b : UInt8} (h : b ∈ dec n) : isDigit b = true := by
  simp only [dec, inBase, List.mem_map, List.mem_reverse] at h
  obtain ⟨d, hd, rfl⟩ := h
  exact (digitByte_spec (lt_of_mem_digitsRev (by decide) _ _ d hd)).1

/-- The value of the bytes of digits. -/
private theorem digitsValue_map_digitByte (digits : List Nat) (h : ∀ d ∈ digits, d < 10) :
    digitsValue (digits.reverse.map digitByte) = Nat.ofDigits 10 digits := by
  unfold digitsValue
  induction digits with
  | nil => rfl
  | cons d rest ih =>
    rw [List.reverse_cons, List.map_append, List.foldl_append,
      ih fun d' hd' => h d' (List.mem_cons_of_mem _ hd'), Nat.ofDigits_cons]
    simp only [List.map_cons, List.map_nil, List.foldl_cons, List.foldl_nil,
      (digitByte_spec (h d List.mem_cons_self)).2]
    exact Nat.add_comm _ _

/-- The value of a decimal numeral is the number. -/
theorem digitsValue_dec (n : Nat) : digitsValue (dec n) = n := by
  rw [dec, inBase, digitsValue_map_digitByte _ (lt_of_mem_digitsRev (by decide) _ _)]
  exact ofDigits_digitsRev (by decide) _ _ (lt_pow_log2 (by decide) n)

/-! ### Numerals of a fixed width -/

/-- The value of the letter of a digit. -/
def digitOf (b : UInt8) : Nat := if b < 0x3A then b.toNat - 0x30 else b.toNat - 0x57

/-- The digit of a value below thirty-six has that value. -/
theorem digitOf_digitByte {d : Nat} (h : d < 36) : digitOf (digitByte d) = d := by
  have hall : ∀ d < 36, digitOf (digitByte d) = d := by decide
  exact hall d h

/-- A number below a power of the base has no more digits than the exponent says. -/
theorem length_digitsRev_le {base : Nat} (hbase : 0 < base) (fuel : Nat) {n width : Nat}
    (hwidth : 0 < width) (h : n < base ^ width) : (digitsRev base fuel n).length ≤ width := by
  induction fuel generalizing n width with
  | zero => exact Nat.zero_le width
  | succ fuel ih =>
    unfold digitsRev
    split
    · exact hwidth
    · rename_i hn
      obtain ⟨rest, rfl⟩ := Nat.exists_eq_add_one_of_ne_zero hwidth.ne'
      have hrest : 0 < rest := by
        rcases Nat.eq_zero_or_pos rest with rfl | hpos
        · exact absurd (by simpa using h) hn
        · exact hpos
      have hquotient : n / base < base ^ rest := by
        rw [Nat.div_lt_iff_lt_mul hbase]
        rwa [pow_succ] at h
      exact Nat.succ_le_succ (ih hrest hquotient)

/-- A numeral that is not too long fills its field. -/
theorem length_zeroPad_inBase {base : Nat} (hbase : 0 < base) {n width : Nat} (hwidth : 0 < width)
    (h : n < base ^ width) : (zeroPad width (inBase base n)).length = width := by
  have hle : (inBase base n).length ≤ width := by
    simpa [inBase] using length_digitsRev_le hbase (n.log2 + 1) hwidth h
  rw [zeroPad, List.length_append, List.length_replicate]
  omega

/-- The zeros in front of a numeral do not change its value. -/
theorem ofDigits_zeroPad_inBase {base : Nat} (hlow : 2 ≤ base) (hhigh : base ≤ 36) (width n : Nat) :
    Nat.ofDigits base ((zeroPad width (inBase base n)).reverse.map digitOf) = n := by
  have hdigits : (digitsRev base (n.log2 + 1) n).map (digitOf ∘ digitByte) =
      digitsRev base (n.log2 + 1) n := by
    conv_rhs => rw [← List.map_id (digitsRev base (n.log2 + 1) n)]
    refine List.map_congr_left fun d hd => ?_
    exact digitOf_digitByte ((lt_of_mem_digitsRev (by omega) _ _ d hd).trans_le hhigh)
  have hzero : digitOf 0x30 = 0 := rfl
  have hnumeral : inBase base n = ((digitsRev base (n.log2 + 1) n).map digitByte).reverse :=
    List.map_reverse
  -- the padding stands in the highest places, where zeros add nothing
  rw [zeroPad, hnumeral, List.reverse_append, List.reverse_reverse, List.map_append, List.map_map,
    hdigits, List.reverse_replicate, List.map_replicate, hzero, Nat.ofDigits_append,
    Nat.ofDigits_replicate_zero, Nat.mul_zero, Nat.add_zero]
  exact ofDigits_digitsRev (by omega) _ _ (lt_pow_log2 hlow n)

end Text

/-- The text does not start with a byte of the given kind. -/
def StartsNot (p : UInt8 → Bool) (s : Text) : Prop := ∀ b ∈ s.head?, p b = false

theorem StartsNot.nil (p : UInt8 → Bool) : StartsNot p [] := by simp [StartsNot]

theorem StartsNot.cons {p : UInt8 → Bool} {b : UInt8} (h : p b = false) (s : Text) :
    StartsNot p (b :: s) := by
  simpa [StartsNot] using h

/-- A run of bytes of one kind ends where text starts that is not of the kind. -/
theorem takeWhile_append_of_startsNot {p : UInt8 → Bool} {run rest : Text}
    (hrun : ∀ b ∈ run, p b = true) (hrest : StartsNot p rest) :
    (run ++ rest).takeWhile p = run ∧ (run ++ rest).dropWhile p = rest := by
  rw [List.takeWhile_append_of_pos hrun, List.dropWhile_append_of_pos hrun]
  cases rest with
  | nil => simp
  | cons b rest =>
    have hb : p b = false := hrest b rfl
    simp [hb]

/-- Text without a separator ends at the first one. -/
theorem takeWhile_append_of_not_mem {sep : UInt8} {s rest : Text} (h : sep ∉ s)
    (hrest : StartsNot (· != sep) rest) :
    (s ++ rest).takeWhile (· != sep) = s ∧ (s ++ rest).dropWhile (· != sep) = rest :=
  takeWhile_append_of_startsNot (fun _ hb => bne_iff_ne.2 fun hsep => h (hsep ▸ hb)) hrest

/-- A numeral is read back, together with the text behind it. -/
theorem readNumber_dec {n : Nat} (hn : n < 2 ^ 63) {rest : Text}
    (hrest : StartsNot Text.isDigit rest) : readNumber (Text.dec n ++ rest) = (some n, rest) := by
  have hdigits : ∀ b ∈ Text.dec n, Text.isDigit b = true := fun _ hb => Text.isDigit_of_mem_dec hb
  obtain ⟨htake, hdrop⟩ := takeWhile_append_of_startsNot hdigits hrest
  have hvalue : ¬ Nat.pow 2 63 ≤ n := Nat.not_le.2 hn
  have hempty : (Text.dec n).isEmpty = false := by simpa using Text.dec_ne_nil n
  simp only [readNumber, htake, hdrop, Text.digitsValue_dec, hempty, hvalue, Bool.false_or,
    decide_false, Bool.false_eq_true, if_false]

/-- A decimal numeral starts with a digit. -/
theorem dec_eq_cons (n : Nat) : ∃ d digits, Text.dec n = d :: digits ∧ Text.isDigit d = true := by
  obtain ⟨d, digits, hdec⟩ := List.exists_cons_of_ne_nil (Text.dec_ne_nil n)
  exact ⟨d, digits, hdec, Text.isDigit_of_mem_dec (n := n) (by simp [hdec])⟩

/-- The numeral of an integer starts with a digit or with a minus sign. -/
theorem decInt_eq_cons (n : Int) :
    ∃ c tail, Text.decInt n = c :: tail ∧ (Text.isDigit c = true ∨ c = byte '-') := by
  cases n with
  | ofNat n =>
    obtain ⟨d, digits, hdec, hd⟩ := dec_eq_cons n
    exact ⟨d, digits, hdec, Or.inl hd⟩
  | negSucc n => exact ⟨byte '-', Text.dec (n + 1), rfl, Or.inr rfl⟩

/-- Without a minus sign a number is read as it is. -/
theorem readSigned_of_head_ne {s : Text} (h : s.head? ≠ some (byte '-')) :
    readSigned s = (Int.ofNat ((readNumber s).1.getD 0), (readNumber s).2) := by
  rcases s with - | ⟨c, - | ⟨d, s⟩⟩
  · rfl
  · rfl
  · have hc : c ≠ byte '-' := by simpa using h
    simp [readSigned, hc]

/-- The numeral of an integer is read back, together with the text behind it. -/
theorem readSigned_decInt {n : Int} (hn : n.natAbs < 2 ^ 63) {rest : Text}
    (hrest : StartsNot Text.isDigit rest) : readSigned (Text.decInt n ++ rest) = (n, rest) := by
  cases n with
  | ofNat n =>
    obtain ⟨d, digits, hdec, hd⟩ := dec_eq_cons n
    have hminus : (Text.dec n ++ rest).head? ≠ some (byte '-') := by
      rw [hdec, List.cons_append, List.head?_cons, Ne, Option.some.injEq]
      rintro rfl
      exact absurd hd (by decide)
    have hnumber : readNumber (Text.dec n ++ rest) = (some n, rest) := readNumber_dec hn hrest
    rw [Text.decInt, readSigned_of_head_ne hminus, hnumber]
    rfl
  | negSucc n =>
    obtain ⟨d, digits, hdec, hd⟩ := dec_eq_cons (n + 1)
    have hnumber : readNumber (Text.dec (n + 1) ++ rest) = (some (n + 1), rest) :=
      readNumber_dec hn hrest
    -- the sign is taken because a digit follows it
    rw [hdec, List.cons_append] at hnumber
    change readSigned (byte '-' :: (Text.dec (n + 1) ++ rest)) = _
    rw [hdec, List.cons_append]
    simp only [readSigned, decide_true, hd, Bool.and_self, if_true, hnumber]
    rfl

end ObjcLens
