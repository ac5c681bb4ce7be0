import Mathlib
import ObjcLens.Proofs.ObjcType.RoundTrip
import ObjcLens.Proofs.ObjcType.Settle

/-!
# Named fields

An aggregate with named fields is written as its tag, an equals sign, and for each field its quoted
name and the encoding of its type. Whatever types are read back alone are read back as fields, with
one exception. Quoted text behind an object is the name of the next field only if the object is
itself the field. Behind a pointer to an object it is taken for the class of the object, and the
next field loses its name.

## Main results

* `startsType_of_read`: what is read as a type starts like one.
* `decode_fields`: fields are decoded as they were written, if no pointer to an object without
  class is in front of another field.
-/

namespace ObjcLens

namespace ObjcType

/-- A byte that has a case of its own in the reader starts a type, as do the letters of types. -/
private theorem startsType_of_readUnqualified {readType : Bool → Text → Option (ObjcType × Text)}
    {named : Bool} {quals : Text} {code : UInt8} {rest : Text} {p : ObjcType × Text}
    (h : readUnqualified readType named quals code rest = some p) : startsType code = true := by
  -- the marks are characters and types start with bytes, so all bytes are tried
  have hall : ∀ n : Fin 256,
      Char.ofUInt8 (UInt8.ofFin n) ∈ ['^', '[', '{', '(', 'b', '@', ':', '#'] →
        startsType (UInt8.ofFin n) = true := by
    decide +kernel
  have hmark := hall code.toFin
  unfold readUnqualified at h
  split at h
  case h_9 =>
    split at h
    · rename_i hletter
      simp [startsType, hletter]
    · cases h
  all_goals
    rename_i hcode
    exact hmark (by simp [hcode])

/-- What is read as a type starts like one. -/
theorem startsType_of_read {depth : Nat} {named : Bool} {s : Text} {p : ObjcType × Text}
    (h : read depth named s = some p) : ∃ c tail, s = c :: tail ∧ startsType c = true := by
  cases depth with
  | zero => cases h
  | succ depth =>
    cases s with
    | nil => cases h
    | cons c tail =>
      refine ⟨c, tail, rfl, ?_⟩
      by_cases hc : isQualifier c = true
      · simp [startsType, hc]
      · rw [read, List.dropWhile_cons_of_neg hc] at h
        exact startsType_of_readUnqualified h

/-- What is read back alone is read up to its end. -/
theorem read_of_parse_eq {t : ObjcType} (hknown : ∀ raw, t ≠ .unknown raw)
    (hparse : parse t.encode = t) : read maxDepth false t.encode = some (t, []) := by
  cases hread : read maxDepth false t.encode with
  | none =>
    simp only [parse, decode, hread, Option.getD_none] at hparse
    exact absurd hparse.symm (hknown t.encode)
  | some p =>
    obtain ⟨t', - | ⟨c, rest⟩⟩ := p
    · simp only [parse, decode, hread, Option.getD_some] at hparse
      rw [hparse]
    · simp only [parse, decode, hread, Option.getD_some] at hparse
      exact absurd hparse.symm (hknown t.encode)

/-- A field that is read back alone: its name has no quotation mark, and its type is read back and
not nested too deep for a member. -/
structure IsField (field : Text × ObjcType) : Prop where
  quoteFree : isQuoteFree field.1 = true
  known : ∀ raw, field.2 ≠ .unknown raw
  height_lt : field.2.height < maxDepth
  parse_encode : parse field.2.encode = field.2

/-- Canonical types are types of fields. -/
theorem IsField.of_isCanonical {field : Text × ObjcType} (hname : isQuoteFree field.1 = true)
    (hcanonical : field.2.isCanonical = true) (hheight : field.2.height < maxDepth) :
    IsField field where
  quoteFree := hname
  known raw hraw := by simp [hraw, isCanonical] at hcanonical
  height_lt := hheight
  parse_encode := by
    have hread := read_encode_of_isCanonical hcanonical hheight.le
    simp only [parse, decode, hread, Option.getD_some]

/-- The conditions on the fields of a struct can be checked by evaluation. -/
theorem isField_of_all {fields : List (Text × ObjcType)}
    (h : fields.all (fun f => isQuoteFree f.1 && f.2.isCanonical && f.2.height < maxDepth) =
      true) : ∀ f ∈ fields, IsField f := by
  intro f hf
  have hf := List.all_eq_true.1 h f hf
  simp only [Bool.and_eq_true, decide_eq_true_eq] at hf
  exact IsField.of_isCanonical hf.1.1 hf.1.2 hf.2

/-- The quoted name and the encoding of the type of a field. -/
def encodeField (field : Text × ObjcType) : Text := quoted field.1 ++ field.2.encode

/-- The next field or the closing bracket may stand behind a field that is no pointer to an object
without class. Both end a quoted class. -/
private theorem follows_field {kind : AggregateKind} {field : Text × ObjcType}
    {later : List (Text × ObjcType)} (hlater : ∀ f ∈ later, IsField f)
    (hchain : later ≠ [] → field.2.isChainToBareObject = false) :
    ∃ c rest, later.flatMap encodeField ++ [kind.closer] = c :: rest ∧
      Follows true field.2 (c :: rest) ∧ closesQuoted c = true ∧ c ≠ byte ':' := by
  cases later with
  | nil =>
    obtain ⟨hdigit, hclose, hangle, hquestion, hquote, hcolon, -⟩ := closer_spec kind
    refine ⟨kind.closer, [], rfl, ?_, hclose, hcolon⟩
    exact Follows.of_mark hdigit ⟨hangle, hquestion, hquote⟩ (fun _ _ => hclose) []
  | cons next later =>
    have hnext := hlater next List.mem_cons_self
    obtain ⟨c, tail, hencode, hc⟩ :=
      startsType_of_read (read_of_parse_eq hnext.known hnext.parse_encode)
    have hname : Follows true field.2 (quoted next.1 ++ c ::
        (tail ++ (later.flatMap encodeField ++ [kind.closer]))) :=
      Follows.of_name (fun _ => ⟨rfl, hchain (List.cons_ne_nil _ _)⟩) hnext.quoteFree hc _
    refine ⟨byte '"',
      next.1 ++ byte '"' :: (c :: tail ++ (later.flatMap encodeField ++ [kind.closer])),
      ?_, ?_, by decide, by decide⟩
    · simp [encodeField, quoted, hencode]
    · simpa [quoted] using hname

/-- A field is read back in front of the fields behind it. -/
private theorem readMember_field {kind : AggregateKind} {field : Text × ObjcType}
    (hfield : IsField field) {later : List (Text × ObjcType)} (hlater : ∀ f ∈ later, IsField f)
    (hchain : later ≠ [] → field.2.isChainToBareObject = false) :
    readMember (read 63 true)
        (encodeField field ++ (later.flatMap encodeField ++ [kind.closer])) =
      some (⟨field.1, field.2, 0⟩, later.flatMap encodeField ++ [kind.closer]) := by
  obtain ⟨c, rest, hrest, hfollows, hclose, hcolon⟩ := follows_field hlater hchain
  -- alone the type is read at full depth, as a member one level below its aggregate
  have halone := read_of_parse_eq hfield.known hfield.parse_encode
  rw [← List.append_nil (encode _)] at halone
  have hends : EndsClass true (c :: rest) := fun _ d hd => by
    obtain rfl : c = d := by simpa using hd
    exact hclose
  have htype := read_append_of_follows hfollows hends
    (Or.inl (Nat.le_of_lt_succ hfield.height_lt)) halone
  have hname : readMemberName (quoted field.1 ++ (field.2.encode ++ c :: rest)) =
      some (field.1, field.2.encode ++ c :: rest) := by
    have hcut := Text.cut?_append (by simpa [isQuoteFree] using hfield.quoteFree)
      (field.2.encode ++ c :: rest)
    simp [quoted, readMemberName, hcut]
  have hwidth : readWidth (c :: rest) = (0, c :: rest) := by
    refine readWidth_of_not ?_
    rintro ⟨digits, hdigits, -⟩
    exact hcolon (List.cons.inj hdigits).1
  rw [hrest, encodeField, List.append_assoc]
  simp [readMember, hname, htype, hwidth]

/-- Fields are decoded as they were written: names and types in order. The tag is any that the
reader accepts. Only in the last place may a field be a pointer to an object without class. -/
theorem decode_fields (kind : AggregateKind) {tag : Text}
    (htag : isTagName kind.closer 0 tag = true) {fields : List (Text × ObjcType)}
    (hfields : ∀ f ∈ fields, IsField f)
    (hchain : ∀ f ∈ fields.dropLast, f.2.isChainToBareObject = false) :
    decode (kind.opener :: tag ++ byte '=' :: fields.flatMap encodeField ++ [kind.closer]) =
      (.aggregate [] kind tag (fields.map fun f => ⟨f.1, f.2, 0⟩), []) := by
  have hread : readUntil kind.closer (readMember (read 63 true))
      (fields.flatMap encodeField ++ [kind.closer]).length
      (fields.flatMap encodeField ++ [kind.closer]) =
        some (fields.map fun f => ⟨f.1, f.2, 0⟩, []) := by
    refine readUntil_flatMap_map (fun f hf => ?_) (fun f later hsuffix => ?_) le_rfl
    · exact ⟨byte '"', _, rfl, by cases kind <;> decide⟩
    · have hlater : ∀ g ∈ later, IsField g :=
        fun g hg => hfields g (hsuffix.subset (List.mem_cons_of_mem f hg))
      refine readMember_field (hfields f (hsuffix.subset List.mem_cons_self)) hlater fun hne => ?_
      obtain ⟨front, rfl⟩ := hsuffix
      refine hchain f ?_
      rw [List.dropLast_append_of_ne_nil (List.cons_ne_nil f later),
        List.dropLast_cons_of_ne_nil hne]
      exact List.mem_append_right front List.mem_cons_self
  -- the first field starts with a quotation mark, and without fields nothing is read
  have hnamed : readUntil kind.closer (readMember (read 63
      ((fields.flatMap encodeField ++ [kind.closer]).head? == some (byte '"'))))
      (fields.flatMap encodeField ++ [kind.closer]).length
      (fields.flatMap encodeField ++ [kind.closer]) =
        some (fields.map fun f => ⟨f.1, f.2, 0⟩, []) := by
    cases fields with
    | nil => simp [readUntil]
    | cons f later => exact hread
  have hname := readTag_append htag (Or.inl rfl) (fields.flatMap encodeField ++ [kind.closer])
  have hequals : byte '=' ≠ kind.closer := (closer_spec kind).2.2.2.2.2.2.symm
  have haggregate : read maxDepth false ([] ++ kind.opener ::
      (tag ++ byte '=' :: (fields.flatMap encodeField ++ [kind.closer]))) =
        some (.aggregate [] kind tag (fields.map fun f => ⟨f.1, f.2, 0⟩), []) := by
    rw [maxDepth, read_quals rfl (by cases kind <;> decide), readUnqualified_opener]
    simp only [readAggregate, hname, Option.bind_eq_bind, Option.bind_some, if_neg hequals, hnamed,
      Option.pure_def]
  have htext : kind.opener :: tag ++ byte '=' :: fields.flatMap encodeField ++ [kind.closer] =
      [] ++ kind.opener :: (tag ++ byte '=' :: (fields.flatMap encodeField ++ [kind.closer])) := by
    simp
  rw [decode, htext, haggregate, Option.getD_some]

/-- The state of a fast enumeration with its pointers behind the other fields, as a union. -/
theorem decode_fields_sample :
    let fields : List (Text × ObjcType) := [
      ("state", .primitive [] (byte 'Q')),
      ("owner", .object [] [] []),
      ("delegate", .object [] "Item" ["Copying"]),
      ("extra", .array [] 5 (.aggregate [] .struct "pair<int>" [
        ⟨"key", .pointer [] (.primitive [] (byte 'Q')), 0⟩, ⟨"handler", .block [], 0⟩])),
      ("items", .pointer [] (.object [] [] []))]
    (isTagName AggregateKind.union.closer 0 "<=>" = true ∧ (∀ f ∈ fields, IsField f) ∧
      ∀ f ∈ fields.dropLast, f.2.isChainToBareObject = false) ∧
    decode (byte '(' :: "<=>" ++ byte '=' :: fields.flatMap encodeField ++ [byte ')']) =
      (.aggregate [] .union "<=>" (fields.map fun f => ⟨f.1, f.2, 0⟩), []) := by
  intro fields
  have htag : isTagName AggregateKind.union.closer 0 "<=>" = true := by decide +kernel
  have hfields : ∀ f ∈ fields, IsField f := isField_of_all (by decide +kernel)
  have hchain : ∀ f ∈ fields.dropLast, f.2.isChainToBareObject = false := by decide +kernel
  exact ⟨⟨htag, hfields, hchain⟩, decode_fields .union htag hfields hchain⟩

/-- The state of a fast enumeration is not decoded as it was written: the name of the field behind
the items is taken for their class. -/
theorem decode_enumerationState_ne :
    let fields : List (Text × ObjcType) := [
      ("state", .primitive [] (byte 'Q')),
      ("itemsPtr", .pointer [] (.object [] [] [])),
      ("mutationsPtr", .pointer [] (.primitive [] (byte 'Q'))),
      ("extra", .array [] 5 (.primitive [] (byte 'Q')))]
    (isTagName AggregateKind.struct.closer 0 "?" = true ∧ (∀ f ∈ fields, f.1 ≠ [] ∧ IsField f)) ∧
    byte '{' :: "?" ++ byte '=' :: fields.flatMap encodeField ++ [byte '}'] =
      Text.ofString "\x7b?=\"state\"Q\"itemsPtr\"^@\"mutationsPtr\"^Q\"extra\"[5Q]\x7d" ∧
    decode (byte '{' :: "?" ++ byte '=' :: fields.flatMap encodeField ++ [byte '}']) =
      (.aggregate [] .struct "?" [
        ⟨"state", .primitive [] (byte 'Q'), 0⟩,
        ⟨"itemsPtr", .pointer [] (.object [] "mutationsPtr" []), 0⟩,
        ⟨[], .pointer [] (.primitive [] (byte 'Q')), 0⟩,
        ⟨"extra", .array [] 5 (.primitive [] (byte 'Q')), 0⟩], []) ∧
    decode (byte '{' :: "?" ++ byte '=' :: fields.flatMap encodeField ++ [byte '}']) ≠
      (.aggregate [] .struct "?" (fields.map fun f => ⟨f.1, f.2, 0⟩), []) := by
  intro fields
  have hnames : ∀ f ∈ fields, f.1 ≠ [] := by decide +kernel
  have hfields : ∀ f ∈ fields, IsField f := isField_of_all (by decide +kernel)
  have hdecode : decode (byte '{' :: "?" ++ byte '=' :: fields.flatMap encodeField ++ [byte '}']) =
      (.aggregate [] .struct "?" [
        ⟨"state", .primitive [] (byte 'Q'), 0⟩,
        ⟨"itemsPtr", .pointer [] (.object [] "mutationsPtr" []), 0⟩,
        ⟨[], .pointer [] (.primitive [] (byte 'Q')), 0⟩,
        ⟨"extra", .array [] 5 (.primitive [] (byte 'Q')), 0⟩], []) := rfl
  refine ⟨⟨by decide +kernel, fun f hf => ⟨hnames f hf, hfields f hf⟩⟩, by decide +kernel, hdecode,
    ?_⟩
  -- the second field would have to have the class, but it has none
  rw [hdecode]
  intro h
  have hname : Text.ofString "mutationsPtr" = [] := by simpa [fields] using h
  exact absurd hname (by decide)

end ObjcType

end ObjcLens
