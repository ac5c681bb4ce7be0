import Mathlib
import ObjcLens.Load
import ObjcLens.Proofs.Except

/-!
# The load commands in a block

Load commands lie one behind the other, and each states its own length. `Scans` says which commands
are at the start of a block, and the sections that they list: one command is cut off after the
other, and each is told how many sections those in front of it have listed. Scanning a block finds
just these commands. It fails only because the block, or a command in it, is malformed.

## Main results

* `parse_endsIn`: what one command is parsed to.
* `parseAll_endsIn`: what scanning a block ends with.
* `parseAll_eq_ok_iff`: scanning finds the commands at the start of a block.
-/

namespace ObjcLens

namespace Load

/-- The bytes of a command: a code and a size, which is the number of the bytes, come first. -/
structure IsFramed (order : ByteOrder) (raw : Text) : Prop where
  length_le : 8 ≤ raw.length
  size_eq : (order.word32 (raw.drop 4)).toNat = raw.length

/-- The sections that a command lists. A segment states their number and the number of sections in
front of them, and has room for them. Other commands list none. -/
inductive Lists (first room : Nat) : LoadBody → List Section → Prop
  | segment {s : Segment} {listed : List Section} (hfirst : s.firstSection = first.toUInt32)
      (hcount : listed.length = s.sectionCount.toNat) (hroom : listed.length ≤ room) :
      Lists first room (.segment s) listed
  | other {body : LoadBody} (h : ∀ s, body ≠ .segment s) : Lists first room body []

/-- The commands at the start of a block, with the sections that they list, if there are some
sections in front of them. -/
inductive Scans (order : ByteOrder) : Nat → Int → Text → List Load → List Section → Prop
  | done (first : Nat) (place : Int) (block : Text) : Scans order first place block [] []
  | command {first : Nat} {place : Int} {raw rest : Text} {load : Load} {loads : List Load}
      {listed sections : List Section} (hframed : IsFramed order raw)
      (hparse : parse order first place (order.word32 raw) raw = .ok (load, listed))
      (hrest : Scans order (first + listed.length) (place + raw.length) rest loads sections) :
      Scans order first place (raw ++ rest) (load :: loads) (listed ++ sections)

/-- An error that says that something is malformed. -/
def IsFormat (e : Error) : Prop := e.kind = .format

variable {order : ByteOrder} {first : Nat} {place : Int} {code : CommandCode} {raw : Text}

/-! ## One command -/

/-- A record that was read lies in the command. -/
theorem recordAt_endsIn (what : Text) (offset size : Nat) :
    (recordAt place what raw offset size).EndsIn IsFormat fun r =>
      r = (raw.drop offset).take size ∧ r.length = size := by
  rw [recordAt, record]
  split
  · rename_i hlength
    exact ⟨rfl, hlength⟩
  · split <;> rfl

/-- As many section records are read as were asked for, and each takes room. -/
theorem readSections_endsIn (is64 : Bool) (count offset : Nat) :
    (readSections order is64 place raw count offset).EndsIn IsFormat fun sections =>
      sections.length = count ∧ count ≤ raw.length - offset := by
  induction count generalizing offset with
  | zero => exact ⟨rfl, Nat.zero_le _⟩
  | succ count ih =>
    refine (recordAt_endsIn _ _ _).bind fun r _ ⟨hr, hlength⟩ => ?_
    refine (ih _).bind fun rest _ ⟨hrest, hroom⟩ => ⟨by rw [List.length_cons, hrest], ?_⟩
    -- the record takes at least one byte, which those behind it do not have
    rw [hr, List.length_take, List.length_drop] at hlength
    cases is64 <;> simp only [Bool.false_eq_true, if_true, if_false] at hlength hroom <;> omega

/-- A segment command lists as many sections as it states. -/
theorem parseSegment_endsIn (is64 : Bool) :
    (parseSegment order is64 first place code raw).EndsIn IsFormat fun parsed =>
      Lists first raw.length (.segment parsed.1) parsed.2 := by
  refine (recordAt_endsIn _ _ _).bind fun r _ _ => ?_
  refine (readSections_endsIn _ _ _).bind fun sections _ ⟨hcount, hroom⟩ => ?_
  exact .segment rfl hcount (hcount.le.trans (hroom.trans (Nat.sub_le _ _)))

/-- No other command gives a segment. -/
theorem parseBody_endsIn :
    (parseBody order place code raw).EndsIn IsFormat fun body => ∀ s, body ≠ .segment s := by
  have hrecord (size : Nat) {f : Text → Except Error LoadBody}
      (hf : ∀ r, (f r).EndsIn IsFormat fun body => ∀ s, body ≠ .segment s) :
      (recordAt place code.name raw 0 size >>= f).EndsIn IsFormat fun body =>
        ∀ s, body ≠ .segment s :=
    (recordAt_endsIn _ _ _).bind fun r _ _ => hf r
  unfold parseBody
  dsimp only
  iterate 5 refine .ite (hrecord _ fun _ _ => nofun) ?_
  -- a library and a directory have a name, which must start in the command
  iterate 2 refine .ite (hrecord _ fun _ => .ite_throw (by rfl) fun _ _ => nofun) ?_
  iterate 2 refine .ite (hrecord _ fun _ _ => nofun) ?_
  exact fun _ => nofun

/-- A command keeps its code and its bytes, and lists the sections that it states. -/
theorem parse_endsIn :
    (parse order first place code raw).EndsIn IsFormat fun parsed =>
      parsed.1.code = code ∧ parsed.1.raw = raw ∧
        Lists first raw.length parsed.1.body parsed.2 := by
  unfold parse
  split
  · exact (parseSegment_endsIn _).bind fun _ _ hlists => ⟨rfl, rfl, hlists⟩
  · exact parseBody_endsIn.bind fun _ _ hbody => ⟨rfl, rfl, .other hbody⟩

/-! ## All commands -/

/-- A word is in the first four bytes. -/
theorem word32_append {a : Text} (h : 4 ≤ a.length) (b : Text) :
    order.word32 (a ++ b) = order.word32 a := by
  rw [ByteOrder.word32, ByteOrder.word32, List.take_append_of_le_length h]

/-- A word does not depend on the bytes behind it. -/
theorem word32_drop_append {a : Text} {offset : Nat} (h : offset + 4 ≤ a.length) (b : Text) :
    order.word32 ((a ++ b).drop offset) = order.word32 (a.drop offset) := by
  rw [List.drop_append_of_le_length (by omega), word32_append]
  rw [List.length_drop]
  omega

/-- Scanning ends with the commands at the start of the block, as many as were asked for. -/
theorem parseAll_endsIn (count : Nat) (block : Text) :
    (parseAll order count first place block).EndsIn IsFormat fun found =>
      Scans order first place block found.1 found.2 ∧ found.1.length = count := by
  induction count generalizing first place block with
  | zero => exact ⟨.done _ _ _, rfl⟩
  | succ count ih =>
    refine .ite_throw (by rfl) fun hshort => .ite_throw (by rfl) fun hbad => ?_
    simp only [Bool.or_eq_true, decide_eq_true_iff, not_or, not_lt] at hbad
    obtain ⟨raw, rest, rfl, hlength⟩ : ∃ raw rest, block = raw ++ rest ∧
        raw.length = (order.word32 (block.drop 4)).toNat :=
      ⟨_, _, (List.take_append_drop _ _).symm, List.length_take_of_le hbad.2⟩
    rw [← hlength] at hbad ⊢
    rw [List.take_left, List.drop_left, word32_append (by omega)]
    have hframed : IsFramed order raw :=
      ⟨hbad.1, by rw [hlength, word32_drop_append (by omega)]⟩
    refine parse_endsIn.bind fun ⟨load, listed⟩ hparse _ => ?_
    refine (ih rest).bind fun ⟨loads, others⟩ _ ⟨hscans, hcount⟩ => ?_
    exact ⟨.command hframed hparse hscans, congrArg Nat.succ hcount⟩

/-- Scanning finds the commands at the start of a block. -/
theorem parseAll_eq_ok_iff {count : Nat} {block : Text} {loads : List Load}
    {sections : List Section} :
    parseAll order count first place block = .ok (loads, sections) ↔
      Scans order first place block loads sections ∧ loads.length = count := by
  constructor
  · exact fun h => (parseAll_endsIn count block).ok h
  · rintro ⟨hscans, rfl⟩
    induction hscans with
    | done => rfl
    -- the commands are cut off the front, each by the size it states
    | @command _ _ raw rest _ _ _ _ hframed hparse _ ih =>
      obtain ⟨hlength, hsize⟩ := hframed
      have hshort : ¬ (raw ++ rest).length < 8 := by
        rw [List.length_append]
        omega
      have hbad : ¬ (decide (raw.length < 8) ||
          decide ((raw ++ rest).length < raw.length)) = true := by
        rw [List.length_append]
        simpa using hlength
      rw [List.length_cons, parseAll, if_neg hshort, word32_drop_append (by omega), hsize,
        if_neg hbad, List.take_left, List.drop_left, word32_append (by omega), hparse]
      simp only [Except.ok_bind, ih]
      rfl

end Load

end ObjcLens
