import Mathlib
import ObjcLens.Proofs.Except
import ObjcLens.Proofs.Text.Numeral
import ObjcLens.Renaming.Output

/-!
# Generated names

A generated name is a letter, chosen by the remainder of a hash, and the last digits of the quotient
in base 36. The quotient of a 64-bit hash always fits the thirteen digits that are written, so every
name has the length that was asked for, and no place outside the digits is ever looked at. A name of
the full length shows the remainder and the whole quotient, so it tells the hash.

## Main results

* `nameOfHash?_eq_some`: no access is out of range.
* `isGenerated_nameOfHash`: length, letter and digits of a name.
* `nameOfHash_injective`: names of the full length tell hashes apart.
* `candidate_isGenerated`: the names that are tried under the rules of any settings.
-/

namespace ObjcLens

namespace Text

/-- The byte is an upper-case letter. -/
def isUpperLetter (b : UInt8) : Bool := 0x41 ≤ b && b ≤ 0x5A

/-- The byte is a lower-case letter. -/
def isLowerLetter (b : UInt8) : Bool := 0x61 ≤ b && b ≤ 0x7A

/-- The text from a place on; nothing if the place is outside. -/
def from? (s : Text) (place : Int) : Option Text :=
  if 0 ≤ place ∧ place ≤ s.length then some (s.drop place.toNat) else none

end Text

namespace Renaming

/-! ## Accesses -/

/-- The letters that a name can start with. -/
def letters : Text := "abcdefghijklmnopqrstuvwxyz"

/-- The name that a hash stands for, with all accesses to letters and digits checked. -/
def nameOfHash? (length : Nat) (upper : Bool) (h : UInt64) : Option Text := do
  let letter ← letters[h.toNat % 26]?
  let digits := Text.zeroPad (maxNameLength - 1) (Text.inBase 36 (h.toNat / 26))
  let rest ← digits.from? (digits.length - ((length : Int) - 1))
  return (if upper then upperLetter letter else letter) :: rest

/-- The quotient of a hash has at most thirteen digits. -/
theorem length_digits (h : UInt64) :
    (Text.zeroPad (maxNameLength - 1) (Text.inBase 36 (h.toNat / 26))).length = 13 := by
  have hlt : h.toNat / 26 < 36 ^ 13 :=
    calc h.toNat / 26 ≤ h.toNat := Nat.div_le_self _ _
      _ < 2 ^ 64 := h.toNat_lt
      _ ≤ 36 ^ 13 := by decide
  exact Text.length_zeroPad_inBase (by decide) (by decide) hlt

theorem getElem?_letters {k : Nat} (hk : k < 26) : letters[k]? = some (0x61 + k).toUInt8 := by
  have hall : ∀ k < 26, letters[k]? = some (0x61 + k).toUInt8 := by
    decide +kernel
  exact hall k hk

/-- Neither the letter nor the digits of a name are looked for out of range. -/
theorem nameOfHash?_eq_some {length : Nat} (hpos : 1 ≤ length) (hle : length ≤ 14) (upper : Bool)
    (h : UInt64) : nameOfHash? length upper h = some (nameOfHash length upper h) := by
  have hletter := getElem?_letters (Nat.mod_lt h.toNat (by decide : 26 > 0))
  have hplace : ((13 : Nat) : Int) - ((length : Int) - 1) = ((13 - (length - 1) : Nat) : Int) := by
    omega
  have hrange : (0 : Int) ≤ (13 - (length - 1) : Nat) ∧
      ((13 - (length - 1) : Nat) : Int) ≤ (13 : Nat) := by
    omega
  rw [nameOfHash?, nameOfHash, hletter]
  simp only [Option.pure_def, Option.bind_eq_bind, Option.bind_some, Text.from?, length_digits,
    hplace, if_pos hrange, Int.toNat_natCast]

/-! ## The parts of a name -/

/-- The text is a letter in upper or lower case, followed by digits of base 36. -/
structure IsGenerated (length : Nat) (upper : Bool) (name : Text) : Prop where
  /-- The text has the length that was asked for. -/
  length_eq : name.length = length
  /-- The first character is a letter, in upper case if and only if that was asked for. -/
  letter : ∃ b ∈ name.head?, Text.isLetter b = true ∧ Text.isUpperLetter b = upper
  /-- The others are digits of base 36. -/
  digits : ∀ b ∈ name.tail, (Text.isDigit b || Text.isLowerLetter b) = true

/-- A remainder of twenty-six gives a letter of the asked case. -/
theorem letter_of_remainder {k : Nat} (hk : k < 26) (upper : Bool) :
    let letter := if upper then upperLetter (0x61 + k).toUInt8 else (0x61 + k).toUInt8
    Text.isLetter letter = true ∧ Text.isUpperLetter letter = upper := by
  have hall : ∀ k < 26, ∀ upper : Bool,
      let letter := if upper then upperLetter (0x61 + k).toUInt8 else (0x61 + k).toUInt8
      Text.isLetter letter = true ∧ Text.isUpperLetter letter = upper := by
    decide
  exact hall k hk upper

/-- The letters of different remainders differ. -/
theorem remainder_of_letter {k m : Nat} (hk : k < 26) (hm : m < 26) {upper : Bool}
    (h : (if upper then upperLetter (0x61 + k).toUInt8 else (0x61 + k).toUInt8) =
      if upper then upperLetter (0x61 + m).toUInt8 else (0x61 + m).toUInt8) : k = m := by
  have hall : ∀ upper : Bool, ∀ k < 26, ∀ m < 26,
      (if upper then upperLetter (0x61 + k).toUInt8 else (0x61 + k).toUInt8) =
        (if upper then upperLetter (0x61 + m).toUInt8 else (0x61 + m).toUInt8) → k = m := by
    decide
  exact hall upper k hk m hm h

/-- A digit, or the zero in front of the digits, is a digit of base 36. -/
theorem digit_of_mem_zeroPad {width n : Nat} {b : UInt8}
    (h : b ∈ Text.zeroPad width (Text.inBase 36 n)) :
    (Text.isDigit b || Text.isLowerLetter b) = true := by
  have hall : ∀ d < 36,
      (Text.isDigit (Text.digitByte d) || Text.isLowerLetter (Text.digitByte d)) = true := by
    decide
  rcases List.mem_append.1 h with hzero | hdigit
  · rw [List.eq_of_mem_replicate hzero]
    rfl
  · obtain ⟨d, hd, rfl⟩ := List.mem_map.1 hdigit
    exact hall d (Text.lt_of_mem_digitsRev (by decide) _ _ d (List.mem_reverse.1 hd))

/-- The name of a hash has the shape that is asked for. -/
theorem isGenerated_nameOfHash {length : Nat} (hpos : 1 ≤ length) (hle : length ≤ 14)
    (upper : Bool) (h : UInt64) : IsGenerated length upper (nameOfHash length upper h) := by
  refine ⟨?_, ⟨_, rfl, letter_of_remainder (Nat.mod_lt h.toNat (by decide)) upper⟩, ?_⟩
  · rw [nameOfHash, List.length_cons, List.length_drop, length_digits]
    omega
  · intro b hb
    exact digit_of_mem_zeroPad (List.mem_of_mem_drop hb)

/-- A name of the full length tells its hash. -/
theorem nameOfHash_injective (upper : Bool) : Function.Injective (nameOfHash 14 upper) := by
  intro h k hname
  -- no digit is cut off, so the names agree in the letter and in all digits
  have hdrop : (13 : Nat) - (14 - 1) = 0 := rfl
  simp only [nameOfHash, length_digits, hdrop, List.drop_zero] at hname
  obtain ⟨hletter, hdigits⟩ := List.cons.inj hname
  have hremainder : h.toNat % 26 = k.toNat % 26 :=
    remainder_of_letter (Nat.mod_lt _ (by decide)) (Nat.mod_lt _ (by decide)) hletter
  have hvalue (n : Nat) :
      Nat.ofDigits 36 ((Text.zeroPad 13 (Text.inBase 36 n)).reverse.map Text.digitOf) = n :=
    Text.ofDigits_zeroPad_inBase (by decide) (by decide) 13 n
  have hquotient : h.toNat / 26 = k.toNat / 26 := by
    rw [← hvalue (h.toNat / 26), ← hvalue (k.toNat / 26)]
    exact congrArg (fun s : Text => Nat.ofDigits 36 (s.reverse.map Text.digitOf)) hdigits
  apply UInt64.toNat_inj.1
  rw [← Nat.div_add_mod h.toNat 26, hquotient, hremainder, Nat.div_add_mod]

/-! ## Names under the rules of settings -/

/-- The name that is tried for a symbol at an attempt, with all accesses checked. -/
def candidate? (rules : Rules) (name : Text) (attempt : Nat) (upper : Bool) : Option Text :=
  nameOfHash? rules.nameLength upper (rules.hash (rules.seed + attempt.toUInt64) name)

/-- Whatever length is asked for, names have between one and fourteen characters. -/
theorem nameLength_of_rules {s : Settings} {rules : Rules} (h : s.rules = .ok rules) :
    (rules.nameLength : Int) = (if s.nameLength ≤ 0 then 10 else min s.nameLength 14) ∧
      1 ≤ rules.nameLength ∧ rules.nameLength ≤ 14 := by
  obtain ⟨filter, -, h⟩ := Except.bind_eq_ok_iff.1 h
  obtain ⟨ignore, -, h⟩ := Except.bind_eq_ok_iff.1 h
  cases h
  simp only [defaultNameLength, maxNameLength]
  split <;> omega

/-- Under the rules of any settings, whatever the hash: no access is out of range, the new name has
the length that the settings ask for and the shape of a generated name, and names of the full length
differ if their hashes differ. -/
theorem candidate_isGenerated {s : Settings} {rules : Rules} (hrules : s.rules = .ok rules)
    (hash : UInt64 → Text → UInt64) (name : Text) (attempt : Nat) (upper : Bool) :
    let rules := { rules with hash }
    let new := candidate rules name attempt upper
    candidate? rules name attempt upper = some new ∧
      IsGenerated rules.nameLength upper new ∧
      (rules.nameLength : Int) = (if s.nameLength ≤ 0 then 10 else min s.nameLength 14) ∧
      1 ≤ rules.nameLength ∧ rules.nameLength ≤ 14 ∧
      (14 ≤ s.nameLength → ∀ (other : UInt64 → Text → UInt64) (name' : Text) (attempt' : Nat),
        hash (rules.seed + attempt.toUInt64) name ≠ other (rules.seed + attempt'.toUInt64) name' →
        new ≠ candidate { rules with hash := other } name' attempt' upper) := by
  obtain ⟨hlength, hpos, hle⟩ := nameLength_of_rules hrules
  refine ⟨nameOfHash?_eq_some hpos hle _ _, isGenerated_nameOfHash hpos hle _ _, hlength, hpos,
    hle, ?_⟩
  intro hfull other name' attempt' hne hsame
  have hfull : rules.nameLength = 14 := by
    rw [if_neg (by omega)] at hlength
    omega
  rw [candidate, candidate] at hsame
  dsimp only at hsame
  rw [hfull] at hsame
  exact hne (nameOfHash_injective upper hsame)

/-- The largest hash and the one in front of it, for a length that is cut to the full one. -/
theorem candidate_isGenerated_largestHash :
    ∃ rules, ({ nameLength := 99 } : Settings).rules = .ok rules ∧
      let largest := { rules with hash := fun _ _ => 0xFFFFFFFFFFFFFFFF }
      let second := { rules with hash := fun _ _ => 0xFFFFFFFFFFFFFFFE }
      let new := candidate largest "Garden" 0 true
      new = ("P05e1x9qe2ybq0" : Text) ∧ candidate? largest "Garden" 0 true = some new ∧
        IsGenerated 14 true new ∧ new ≠ candidate second "Orchard" 0 true := by
  refine ⟨_, rfl, ?_⟩
  intro largest second new
  obtain ⟨haccess, hshape, -, -, -, hdiffer⟩ :=
    candidate_isGenerated (s := { nameLength := 99 }) rfl (fun _ _ => 0xFFFFFFFFFFFFFFFF)
      "Garden" 0 true
  refine ⟨?_, haccess, hshape, ?_⟩
  · decide +kernel
  · exact hdiffer (by decide) (fun _ _ => 0xFFFFFFFFFFFFFFFE) "Orchard" 0 (by decide)

end Renaming

end ObjcLens
