import Mathlib
import ObjcLens.Proofs.ObjcType.Follow

/-!
# Unambiguous types are read back

The encoding of a well-formed and unambiguous type is decoded to the type. The induction carries
along that the text behind a part may follow it: that text is the text of the parts that follow, or
the bracket that closes the whole.

## Main results

* `readsEncoding`: an encoding is read back in front of any text that may follow it.
* `decode_encode_of_isCanonical`: decoding undoes encoding.
-/

namespace ObjcLens

namespace ObjcType

/-- Items are read one after the other, if each is read in front of the items behind it and none
starts with the closing byte. -/
theorem readUntil_flatMap_map {α β : Type} {closer : UInt8} {item : Text → Option (α × Text)}
    {write : β → Text} {value : β → α} {rest : Text} {items : List β}
    (hhead : ∀ x ∈ items, ∃ c tail, write x = c :: tail ∧ c ≠ closer)
    (hitem : ∀ x later, x :: later <:+ items →
      item (write x ++ (later.flatMap write ++ closer :: rest)) =
        some (value x, later.flatMap write ++ closer :: rest))
    {fuel : Nat} (hfuel : (items.flatMap write ++ closer :: rest).length ≤ fuel) :
    readUntil closer item fuel (items.flatMap write ++ closer :: rest) =
      some (items.map value, rest) := by
  induction items generalizing fuel with
  | nil =>
    obtain ⟨fuel, rfl⟩ : ∃ n, fuel = n + 1 :=
      ⟨fuel - 1, by simp only [List.flatMap_nil, List.nil_append, List.length_cons] at hfuel; omega⟩
    simp [readUntil]
  | cons x later ih =>
    -- the first byte of an item is not the closing one, so the item is read and the fuel shrinks
    -- with the text
    obtain ⟨c, tail, hwrite, hc⟩ := hhead x List.mem_cons_self
    have hread := hitem x later List.suffix_rfl
    have hshorter : (later.flatMap write ++ closer :: rest).length + 1 ≤ fuel := by
      rw [List.flatMap_cons, hwrite, List.append_assoc, List.cons_append, List.length_cons,
        List.length_append] at hfuel
      omega
    obtain ⟨fuel, rfl⟩ : ∃ n, fuel = n + 1 := ⟨fuel - 1, by omega⟩
    have hlater := ih (fun y hy => hhead y (List.mem_cons_of_mem x hy))
      (fun y ys hys => hitem y ys (hys.trans (List.suffix_cons x later)))
      (Nat.le_of_succ_le_succ hshorter)
    rw [List.flatMap_cons, List.append_assoc]
    rw [hwrite, List.cons_append] at hread ⊢
    simp [readUntil, hc, hread, hlater]

/-- Items are read back one after the other, if each is read back in front of the items behind
it. -/
theorem readUntil_flatMap {α : Type} {closer : UInt8} {item : Text → Option (α × Text)}
    {write : α → Text} {rest : Text} {items : List α}
    (hhead : ∀ x ∈ items, ∃ c tail, write x = c :: tail ∧ c ≠ closer)
    (hitem : ∀ x later, x :: later <:+ items →
      item (write x ++ (later.flatMap write ++ closer :: rest)) =
        some (x, later.flatMap write ++ closer :: rest))
    {fuel : Nat} (hfuel : (items.flatMap write ++ closer :: rest).length ≤ fuel) :
    readUntil closer item fuel (items.flatMap write ++ closer :: rest) = some (items, rest) := by
  have hread := readUntil_flatMap_map hhead hitem hfuel
  rwa [List.map_id'] at hread

/-- No element clashes with the one behind it. -/
private theorem not_clash_of_suffix {α : Type} {clash : α → α → Bool} {items : List α}
    (h : hasNoClash clash items = true) {x : α} {later : List α} (hsuffix : x :: later <:+ items) :
    ∀ y ∈ later.head?, clash x y = false := by
  induction items with
  | nil => simp at hsuffix
  | cons z items ih =>
    have htail : hasNoClash clash items = true := by
      cases items with
      | nil => rfl
      | cons w items =>
        rw [hasNoClash, Bool.and_eq_true] at h
        exact h.2
    -- the element is the first one, or it stands further behind
    rcases List.suffix_cons_iff.1 hsuffix with heq | hsuffix
    · obtain ⟨rfl, rfl⟩ := List.cons.inj heq
      intro y hy
      obtain ⟨tail, rfl⟩ := List.head?_eq_some_iff.1 hy
      rw [hasNoClash, Bool.and_eq_true, Bool.not_eq_true'] at h
      exact h.1
    · exact ih htail hsuffix

/-- The encodings of types stand one after the other. -/
theorem encodeAll_eq_flatMap (types : List ObjcType) :
    encodeAll types = types.flatMap encode := by
  induction types with
  | nil => rfl
  | cons t rest ih => rw [encodeAll, ih, List.flatMap_cons]

/-- The types of a signature may follow each other. -/
theorem follows_types {t : ObjcType} {later : List ObjcType}
    (hspelled : ∀ u ∈ later, u.fitsSyntax = true)
    (hclash : ∀ u ∈ later.head?, clashes t u = false) (rest : Text) :
    Follows false t (later.flatMap encode ++ byte '>' :: rest) := by
  cases later with
  | nil => exact Follows.of_mark (by decide) (by decide) (by simp) rest
  | cons u later =>
    obtain ⟨c, tail, hencode, hc, hquestion, -⟩ := encode_eq_cons (hspelled u List.mem_cons_self)
    have hno := hclash u rfl
    rw [List.flatMap_cons, hencode, List.append_assoc, List.cons_append]
    refine Follows.of_startsType hc (fun hbare hc => ?_) (by simp) _
    simp [clashes, hbare, hquestion hc] at hno

/-- The bit width behind a member. -/
def encodeWidth (width : Nat) : Text :=
  if width = 0 then [] else byte ':' :: Text.dec width

/-- The encoding of one member. -/
def encodeMember (m : Member ObjcType) : Text :=
  (if m.name.isEmpty then [] else quoted m.name) ++ (m.type.encode ++ encodeWidth m.width)

theorem encodeMembers_eq_flatMap (members : List (Member ObjcType)) :
    encodeMembers members = members.flatMap encodeMember := by
  induction members with
  | nil => rfl
  | cons m rest ih =>
    rw [encodeMembers, ih, List.flatMap_cons, encodeMember, encodeWidth]
    simp only [List.append_assoc]

/-- A width is read back, if no digit follows it. -/
theorem readWidth_append {width : Nat} (hwidth : width < 2 ^ 63) {rest : Text}
    (hdigit : StartsNot Text.isDigit rest)
    (hcolon : ∀ tail, rest = byte ':' :: tail → StartsNot Text.isDigit tail) :
    readWidth (encodeWidth width ++ rest) = (width, rest) := by
  by_cases hzero : width = 0
  · -- a colon without a width is a selector, and no digit is behind it
    rw [encodeWidth, if_pos hzero, List.nil_append, hzero]
    match rest with
    | [] => rfl
    | [c] => rfl
    | c :: d :: rest =>
      by_cases hc : c = byte ':'
      · have hd : Text.isDigit d = false := hcolon (d :: rest) (by rw [hc]) d rfl
        simp [readWidth, hd]
      · simp [readWidth, hc]
  · have hread := readNumber_dec hwidth hdigit
    obtain ⟨d, digits, hdec, hd⟩ := dec_eq_cons width
    rw [encodeWidth, if_neg hzero, List.cons_append]
    rw [hdec, List.cons_append] at hread ⊢
    simp [readWidth, hd, hread]

/-- The name of a member is read back. -/
theorem readMemberName_append {m : Member ObjcType} (hname : isQuoteFree m.name = true)
    (htype : m.type.fitsSyntax = true) (rest : Text) :
    readMemberName (encodeMember m ++ rest) =
      some (m.name, m.type.encode ++ (encodeWidth m.width ++ rest)) := by
  by_cases hempty : m.name.isEmpty = true
  · -- an unnamed member starts with its type, and no type with a quotation mark
    obtain ⟨c, tail, hencode, hc, -, -⟩ := encode_eq_cons htype
    have hquote : c ≠ byte '"' := by
      rintro rfl
      exact absurd hc (by decide)
    simp [encodeMember, hencode, readMemberName, hquote, List.isEmpty_iff.1 hempty]
  · have hcut := Text.cut?_append (by simpa [isQuoteFree] using hname)
      (m.type.encode ++ (encodeWidth m.width ++ rest))
    simp [encodeMember, hempty, quoted, readMemberName, hcut]

/-- A member is read back, if its type and its width are. -/
private theorem readMember_append {readType : Text → Option (ObjcType × Text)}
    {m : Member ObjcType} (hname : isQuoteFree m.name = true) (htype : m.type.fitsSyntax = true)
    {rest : Text}
    (hread : readType (m.type.encode ++ (encodeWidth m.width ++ rest)) =
      some (m.type, encodeWidth m.width ++ rest))
    (hwidth : readWidth (encodeWidth m.width ++ rest) = (m.width, rest)) :
    readMember readType (encodeMember m ++ rest) = some (m, rest) := by
  simp [readMember, readMemberName_append hname htype, hread, hwidth]

/-- A named member starts with a quotation mark, any other with its type. -/
theorem encodeMember_eq_cons {m : Member ObjcType} (htype : m.type.fitsSyntax = true) :
    ∃ c tail, encodeMember m = c :: tail ∧
      (m.name.isEmpty = false ∧ c = byte '"' ∨ m.name.isEmpty = true ∧ startsType c = true) := by
  by_cases hempty : m.name.isEmpty = true
  · obtain ⟨c, tail, hencode, hc, -, -⟩ := encode_eq_cons htype
    exact ⟨c, _, by rw [encodeMember, if_pos hempty, hencode]; rfl, Or.inr ⟨hempty, hc⟩⟩
  · exact ⟨byte '"', _, by rw [encodeMember, if_neg hempty, quoted]; rfl,
      Or.inl ⟨Bool.eq_false_iff.2 hempty, rfl⟩⟩

/-- The closing bracket of an aggregate ends a quoted name and starts no type. -/
theorem closer_spec (kind : AggregateKind) :
    Text.isDigit kind.closer = false ∧ closesQuoted kind.closer = true ∧
      kind.closer ≠ byte '<' ∧ kind.closer ≠ byte '?' ∧ kind.closer ≠ byte '"' ∧
      kind.closer ≠ byte ':' ∧ kind.closer ≠ byte '=' := by
  cases kind <;> decide

/-- No digit stands between members. -/
theorem startsNot_isDigit_members {members : List (Member ObjcType)}
    (hspelled : ∀ m ∈ members, m.type.fitsSyntax = true) (kind : AggregateKind) (rest : Text) :
    StartsNot Text.isDigit (members.flatMap encodeMember ++ kind.closer :: rest) := by
  cases members with
  | nil => exact StartsNot.cons (closer_spec kind).1 rest
  | cons m later =>
    obtain ⟨c, tail, hencode, hc⟩ := encodeMember_eq_cons (hspelled m List.mem_cons_self)
    rw [List.flatMap_cons, hencode]
    refine StartsNot.cons ?_ _
    rcases hc with ⟨-, rfl⟩ | ⟨-, hc⟩
    · decide
    · exact (startsType_spec c hc).1

/-- No digit follows a selector among members, so that its colon introduces no width. -/
theorem startsNot_isDigit_of_colon {members : List (Member ObjcType)}
    (hspelled : ∀ m ∈ members, m.type.fitsSyntax = true) (kind : AggregateKind)
    {rest tail : Text}
    (h : members.flatMap encodeMember ++ kind.closer :: rest = byte ':' :: tail) :
    StartsNot Text.isDigit tail := by
  cases members with
  | nil => exact absurd (List.cons.inj h).1 (closer_spec kind).2.2.2.2.2.1
  | cons m later =>
    rw [List.forall_mem_cons] at hspelled
    rw [List.flatMap_cons, encodeMember] at h
    -- a colon in front is a member without a name whose type is a selector; its width or the next
    -- member is behind it
    by_cases hempty : m.name.isEmpty = true
    · obtain ⟨c, rest', hencode, -, -, hcolon⟩ := encode_eq_cons hspelled.1
      rw [if_pos hempty, hencode, List.nil_append, List.append_assoc, List.append_assoc,
        List.cons_append, List.cons.injEq] at h
      rw [← h.2, hcolon h.1, List.nil_append, encodeWidth]
      split
      · exact startsNot_isDigit_members hspelled.2 kind rest
      · exact StartsNot.cons (by decide) _
    · rw [if_neg hempty, quoted] at h
      exact absurd (List.cons.inj h).1 (by decide)

/-- The width of a member and the members behind it may follow its type. -/
theorem follows_member {named : Bool} {m : Member ObjcType} {later : List (Member ObjcType)}
    (hspelled : ∀ n ∈ later, n.type.fitsSyntax = true)
    (hfits : ∀ n ∈ m :: later, memberFits named n = true)
    (hapart : ∀ n ∈ later.head?, mixes named m n = false) (kind : AggregateKind) (rest : Text) :
    Follows named m.type
      (encodeWidth m.width ++ (later.flatMap encodeMember ++ kind.closer :: rest)) := by
  rw [List.forall_mem_cons] at hfits
  rw [encodeWidth]
  -- what comes first behind the type: the closing bracket, the next member or the colon of the
  -- width
  by_cases hwidth : m.width = 0
  · rw [if_pos hwidth, List.nil_append]
    cases later with
    | nil =>
      obtain ⟨hdigit, hclose, hangle, hquestion, hquote, -⟩ := closer_spec kind
      exact Follows.of_mark hdigit ⟨hangle, hquestion, hquote⟩ (fun _ _ => hclose) rest
    | cons n later =>
      obtain ⟨c, tail, hencode, hc, hquestion, -⟩ := encode_eq_cons (hspelled n List.mem_cons_self)
      have hno := hapart n rfl
      rw [List.flatMap_cons, encodeMember, hencode]
      by_cases hempty : n.name.isEmpty = true
      · -- the type of the next member follows
        simp only [mixes, hwidth, decide_true, Bool.true_and, hempty, if_true,
          Bool.or_eq_false_iff] at hno
        rw [if_pos hempty, List.nil_append, List.append_assoc, List.cons_append]
        refine Follows.of_startsType hc (fun hbare hc => ?_) (fun hnamed => ?_) _
        · simp [clashes, hbare, hquestion hc] at hno
        · simpa [hnamed] using hno.2
      · -- the name of the next member follows
        have hname : isQuoteFree n.name = true := by
          have hfit := hfits.2 n List.mem_cons_self
          simp only [memberFits, Bool.and_eq_true] at hfit
          exact hfit.1.1
        have hbare : m.type.endsInBareObject = true →
            named = true ∧ m.type.isChainToBareObject = false := by
          intro hbare
          simpa [mixes, hwidth, hempty, hbare] using hno
        have hfollows := Follows.of_name hbare hname hc
          (tail ++ (encodeWidth n.width ++ (later.flatMap encodeMember ++ kind.closer :: rest)))
        simpa [hempty] using hfollows
  · rw [if_neg hwidth]
    refine Follows.of_mark (by decide) (by decide) (fun hnamed hobject => ?_) _
    have hfit := hfits.1
    simp [memberFits, hnamed, hobject, hwidth] at hfit

/-- Every well-formed and unambiguous type of limited height is read back at a depth. -/
def ReadsEncoding (depth : Nat) : Prop :=
  ∀ (named : Bool) (t : ObjcType) (rest : Text), t.isWellFormed = true → t.isUnambiguous = true →
    t.height ≤ depth → Follows named t rest → read depth named (t.encode ++ rest) = some (t, rest)

/-- The text of members starts with a quotation mark if the first one has a name. -/
theorem head?_members {members : List (Member ObjcType)}
    (hspelled : ∀ m ∈ members, m.type.fitsSyntax = true) (kind : AggregateKind) (rest : Text) :
    ((members.flatMap encodeMember ++ kind.closer :: rest).head? == some (byte '"')) =
      startsNamed members := by
  cases members with
  | nil =>
    have hquote : kind.closer ≠ byte '"' := (closer_spec kind).2.2.2.2.1
    simp [startsNamed, hquote]
  | cons m later =>
    obtain ⟨c, tail, hencode, hc⟩ := encodeMember_eq_cons (hspelled m List.mem_cons_self)
    rw [List.flatMap_cons, hencode]
    rcases hc with ⟨hname, rfl⟩ | ⟨hname, hc⟩
    · simpa [startsNamed] using hname
    · have hquote : (c == byte '"') = false := by
        refine beq_eq_false_iff_ne.2 ?_
        rintro rfl
        exact absurd hc (by decide)
      simpa [startsNamed, hquote] using hname

/-- The members of an aggregate are read back, if types are at the depth below. -/
private theorem ReadsEncoding.members {depth : Nat} (ih : ReadsEncoding depth)
    {members : List (Member ObjcType)} (hwell : ∀ m ∈ members, m.type.isWellFormed = true)
    (hclear : ∀ m ∈ members, m.type.isUnambiguous = true)
    (hfits : members.all (memberFits (startsNamed members)) = true)
    (hapart : hasNoClash (mixes (startsNamed members)) members = true)
    (hheight : membersHeight members ≤ depth) (kind : AggregateKind) (rest : Text) :
    let text := members.flatMap encodeMember ++ kind.closer :: rest
    readUntil kind.closer (readMember (read depth (startsNamed members))) text.length text =
      some (members, rest) := by
  have hspelled : ∀ m ∈ members, m.type.fitsSyntax = true :=
    fun m hm => ((isWellFormed_iff m.type).1 (hwell m hm)).1
  have hfits := List.all_eq_true.1 hfits
  refine readUntil_flatMap (fun m hm => ?_) (fun m later hsuffix => ?_) le_rfl
  · obtain ⟨c, tail, hencode, hc⟩ := encodeMember_eq_cons (hspelled m hm)
    refine ⟨c, tail, hencode, ?_⟩
    rintro rfl
    rcases hc with ⟨-, hc⟩ | ⟨-, hc⟩
    · exact (closer_spec kind).2.2.2.2.1 hc
    · exact absurd (closer_spec kind).2.1 (by simp [(startsType_spec _ hc).2.1])
  · have hm : m ∈ members := hsuffix.subset (by simp)
    have hlater : ∀ n ∈ later, n.type.fitsSyntax = true :=
      fun n hn => hspelled n (hsuffix.subset (List.mem_cons_of_mem m hn))
    have hvalid := hfits m hm
    simp only [memberFits, Bool.and_eq_true, decide_eq_true_eq] at hvalid
    refine readMember_append hvalid.1.1 (hspelled m hm) ?_ ?_
    · exact ih _ m.type _ (hwell m hm) (hclear m hm)
        ((height_le_of_mem_members members m hm).trans hheight)
        (follows_member hlater (fun n hn => hfits n (hsuffix.subset hn))
          (not_clash_of_suffix hapart hsuffix) kind rest)
    · exact readWidth_append hvalid.1.2 (startsNot_isDigit_members hlater kind rest)
        (fun tail htail => startsNot_isDigit_of_colon hlater kind htail)

/-- The result and the parameters of a block are read back, if types are at the depth below. -/
private theorem ReadsEncoding.signature {depth : Nat} (ih : ReadsEncoding depth)
    {result : ObjcType} {params : List ObjcType}
    (hwell : ∀ t ∈ result :: params, t.isWellFormed = true)
    (hclear : ∀ t ∈ result :: params, t.isUnambiguous = true)
    (hclash : hasNoClash clashes (result :: params) = true)
    (hheight : max result.height (allHeight params) ≤ depth) (rest : Text) :
    let text := params.flatMap encode ++ byte '>' :: rest
    read depth false (result.encode ++ text) = some (result, text) ∧
      readUntil (byte '>') (read depth false) text.length text = some (params, rest) := by
  have hspelled : ∀ t ∈ result :: params, t.fitsSyntax = true :=
    fun t ht => ((isWellFormed_iff t).1 (hwell t ht)).1
  have hread (t : ObjcType) (later : List ObjcType) (hsuffix : t :: later <:+ result :: params)
      (hdepth : t.height ≤ depth) :=
    ih false t _ (hwell t (hsuffix.subset (by simp))) (hclear t (hsuffix.subset (by simp))) hdepth
      (follows_types (fun u hu => hspelled u (hsuffix.subset (List.mem_cons_of_mem t hu)))
        (not_clash_of_suffix hclash hsuffix) rest)
  -- the result is a type like the parameters, with all of them behind it
  refine ⟨hread result params List.suffix_rfl ((le_max_left _ _).trans hheight), ?_⟩
  refine readUntil_flatMap (fun t ht => ?_) (fun t later hsuffix => ?_) le_rfl
  · obtain ⟨c, tail, hencode, hc, -, -⟩ :=
      encode_eq_cons (hspelled t (List.mem_cons_of_mem result ht))
    exact ⟨c, tail, hencode, (startsType_spec c hc).2.2.2.1⟩
  · have ht := height_le_of_mem params t (hsuffix.subset (by simp))
    exact hread t later (hsuffix.trans (List.suffix_cons result params))
      (ht.trans ((le_max_right _ _).trans hheight))

/-- A letter of its own is a type. -/
private theorem readUnqualified_primitive {code : UInt8} (h : (primitiveName? code).isSome = true)
    (readType : Bool → Text → Option (ObjcType × Text)) (named : Bool) (quals rest : Text) :
    readUnqualified readType named quals code rest = some (.primitive quals code, rest) := by
  unfold readUnqualified
  split
  case h_9 => rw [if_pos h]
  all_goals
    rename_i hcode
    simp [primitiveName?, hcode] at h

/-- The opening bracket of an aggregate is followed by the rest of it. -/
theorem readUnqualified_opener (readType : Bool → Text → Option (ObjcType × Text))
    (named : Bool) (quals : Text) (kind : AggregateKind) (rest : Text) :
    readUnqualified readType named quals kind.opener rest =
      readAggregate readType quals kind rest := by
  cases kind <;> rfl

/-- The names of an object are read back, and no question mark follows the object. -/
private theorem readObjectNames_append {quals name : Text} {protocols : List Text}
    (hname : isClassName name = true) (hprotocols : protocols.all isProtocolName = true)
    {named : Bool} {rest : Text} (hfollows : Follows named (.object quals name protocols) rest) :
    (encodeObjectNames name protocols ++ rest).head? ≠ some (byte '?') ∧
      readObjectNames named (encodeObjectNames name protocols ++ rest) =
        ((name, protocols), rest) := by
  rw [encodeObjectNames]
  by_cases hbare : (name.isEmpty && protocols.isEmpty) = true
  -- nothing is written for a bare object, so what follows must not be taken for its names
  · have hread : readObjectNames named rest = (([], []), rest) :=
      readObjectNames_bare fun hquote =>
        have hnext := hfollows.not_quote hbare hquote
        ⟨hnext.1, hnext.2.2⟩
    rw [if_pos hbare, List.nil_append, hread]
    refine ⟨hfollows.not_question hbare, ?_⟩
    rw [Bool.and_eq_true, List.isEmpty_iff, List.isEmpty_iff] at hbare
    rw [hbare.1, hbare.2]
  · have hqualified : (object quals name protocols).isQualifiedObject = true := by
      rw [isQualifiedObject, Bool.eq_false_iff.2 hbare]
      rfl
    have hquestion : byte '"' ≠ byte '?' := by decide
    rw [if_neg hbare]
    refine ⟨by simpa [quoted] using hquestion, ?_⟩
    exact readObjectNames_quoted hname hprotocols
      fun hnamed => hfollows.ends_quote hnamed hqualified

section Heads

variable (depth : Nat) (named : Bool) {quals : Text} (rest : Text)

/-- A pointer is read by what it points to. -/
theorem read_pointer_append {elem : ObjcType} (h : (pointer quals elem).fitsSyntax = true)
    (helem : elem.fitsSyntax = true) :
    read (depth + 1) named ((pointer quals elem).encode ++ rest) =
      (read depth false (elem.encode ++ rest)).map fun p => (.pointer quals p.1, p.2) := by
  simp only [fitsSyntax, Bool.and_eq_true, Bool.not_eq_true'] at h
  obtain ⟨c, tail, hencode, -, hquestion, -⟩ := encode_eq_cons helem
  -- the element is not the bare `?` that makes a function of the pointer
  have hc : c ≠ byte '?' := fun hc => absurd (hquestion hc) (by simp [h.2])
  rw [encode, List.append_assoc, List.cons_append, read_quals h.1 (by decide)]
  change (if (elem.encode ++ rest).head? = some (byte '?') then _ else _) = _
  rw [if_neg (by simpa [hencode] using hc)]
  cases read depth false (elem.encode ++ rest) <;> rfl

/-- An array is read by its elements, up to the bracket behind them. -/
theorem read_array_append {length : Nat} {elem : ObjcType}
    (h : (array quals length elem).fitsSyntax = true) (helem : elem.fitsSyntax = true) :
    read (depth + 1) named ((array quals length elem).encode ++ rest) =
      (read depth false (elem.encode ++ byte ']' :: rest)).bind fun p =>
        match p.2 with
        | c :: rest => if c = byte ']' then some (.array quals length p.1, rest) else none
        | [] => none := by
  simp only [fitsSyntax, Bool.and_eq_true, decide_eq_true_eq] at h
  obtain ⟨c, tail, hencode, hc, -, -⟩ := encode_eq_cons helem
  have hdigit : StartsNot Text.isDigit (elem.encode ++ byte ']' :: rest) := by
    rw [hencode]
    exact StartsNot.cons (startsType_spec c hc).1 _
  have hnumber := readNumber_dec h.2 hdigit
  have hcode : Char.ofUInt8 (byte '[') = '[' := by decide
  simp only [encode, List.append_assoc, List.cons_append, List.nil_append]
  rw [read_quals h.1 (by decide)]
  simp only [readUnqualified, hcode, hnumber, Option.getD_some]
  rfl

/-- An aggregate is read by its members. -/
theorem read_aggregate_append {kind : AggregateKind} {name : Text}
    {members : List (Member ObjcType)} (h : (aggregate quals kind name members).fitsSyntax = true)
    (hmembers : ∀ m ∈ members, m.type.fitsSyntax = true) :
    let text := members.flatMap encodeMember ++ kind.closer :: rest
    read (depth + 1) named ((aggregate quals kind name members).encode ++ rest) =
      (readUntil kind.closer (readMember (read depth (startsNamed members))) text.length text).map
        fun p => (.aggregate quals kind name p.1, p.2) := by
  simp only [fitsSyntax, Bool.and_eq_true] at h
  obtain ⟨⟨hquals, htag⟩, -⟩ := h
  have hname := readTag_append htag (Or.inl rfl)
    (members.flatMap encodeMember ++ kind.closer :: rest)
  -- the name ends at the equals sign, which opens the list of members
  have hequals : byte '=' ≠ kind.closer := (closer_spec kind).2.2.2.2.2.2.symm
  simp only [encode, List.append_assoc, List.cons_append, List.nil_append,
    encodeMembers_eq_flatMap]
  rw [read_quals hquals (by cases kind <;> decide), readUnqualified_opener]
  simp only [readAggregate, hname, Option.bind_eq_bind, Option.bind_some, if_neg hequals,
    head?_members hmembers]
  cases readUntil kind.closer (readMember (read depth (startsNamed members))) _
    (members.flatMap encodeMember ++ kind.closer :: rest) <;> rfl

/-- A block is read by its result and its parameters. -/
theorem read_signature_append {result : ObjcType} {params : List ObjcType}
    (h : (signature quals result params).fitsSyntax = true) :
    read (depth + 1) named ((signature quals result params).encode ++ rest) =
      (read depth false (result.encode ++ (params.flatMap encode ++ byte '>' :: rest))).bind
        fun p => (readUntil (byte '>') (read depth false) p.2.length p.2).map
          fun q => (.signature quals p.1 q.1, q.2) := by
  simp only [encode, List.append_assoc, List.cons_append, List.nil_append, encodeAll_eq_flatMap]
  rw [read_quals h (by decide)]
  -- behind the question mark an angle bracket opens the signature
  change (read depth false _ >>= fun p => _) = _
  cases read depth false (result.encode ++ (params.flatMap encode ++ byte '>' :: rest)) with
  | none => rfl
  | some p =>
    simp only [Option.bind_eq_bind, Option.bind_some]
    cases readUntil (byte '>') (read depth false) p.2.length p.2 <;> rfl

/-- An object is read with the names behind it, unless a question mark makes a block of it. -/
theorem read_object_append {name : Text} {protocols : List Text}
    (h : (object quals name protocols).fitsSyntax = true) :
    let text := encodeObjectNames name protocols ++ rest
    read (depth + 1) named ((object quals name protocols).encode ++ rest) =
      if text.head? = some (byte '?') then readBlock (read depth false) quals (text.drop 1)
      else some (.object quals (readObjectNames named text).1.1 (readObjectNames named text).1.2,
        (readObjectNames named text).2) := by
  simp only [fitsSyntax, Bool.and_eq_true] at h
  rw [encode, List.append_assoc, List.cons_append, read_quals h.1.1 (by decide)]
  rfl

end Heads

/-- An encoding is read back in front of any text that may follow it. The induction is on the
depth; qualifiers are read first, and the byte behind them selects the case. -/
theorem readsEncoding (depth : Nat) : ReadsEncoding depth := by
  induction depth with
  | zero =>
    intro named t rest _ _ hheight _
    exact absurd (height_pos t) (by omega)
  | succ depth ih =>
    intro named t rest hwell hclear hheight hfollows
    -- the node itself is spelled well and tells its parts apart; all else is said of the parts, to
    -- which the induction hypothesis applies
    obtain ⟨hspelled, hwell⟩ := (isWellFormed_iff t).1 hwell
    obtain ⟨hapart, hclear⟩ := (isUnambiguous_iff t).1 hclear
    cases t with
    | unknown raw => simp [fitsSyntax] at hspelled
    | primitive quals code =>
      simp only [fitsSyntax, Bool.and_eq_true] at hspelled
      have hqual := not_isQualifier_of_primitive hspelled.2
      rw [encode, List.append_assoc, List.singleton_append, read_quals hspelled.1 hqual]
      exact readUnqualified_primitive hspelled.2 _ named quals rest
    | selector quals =>
      rw [fitsSyntax] at hspelled
      rw [encode, List.append_assoc, List.singleton_append, read_quals hspelled (by decide)]
      rfl
    | classObject quals =>
      rw [fitsSyntax] at hspelled
      rw [encode, List.append_assoc, List.singleton_append, read_quals hspelled (by decide)]
      rfl
    | function quals =>
      rw [fitsSyntax] at hspelled
      rw [encode, List.append_assoc, List.cons_append, read_quals hspelled (by decide)]
      rfl
    | pointer quals elem =>
      have helem := hwell elem (List.mem_singleton.2 rfl)
      -- a pointer ends where its element ends, so the element is followed by the same text
      have hread := ih false elem rest helem (hclear elem (List.mem_singleton.2 rfl))
        (Nat.le_of_succ_le_succ hheight) hfollows.elem
      rw [read_pointer_append depth named rest hspelled ((isWellFormed_iff elem).1 helem).1, hread]
      rfl
    | array quals length elem =>
      have helem := hwell elem (List.mem_singleton.2 rfl)
      have hread := ih false elem (byte ']' :: rest) helem
        (hclear elem (List.mem_singleton.2 rfl)) (Nat.le_of_succ_le_succ hheight)
        (Follows.of_mark (by decide) (by decide) (by simp) rest)
      rw [read_array_append depth named rest hspelled ((isWellFormed_iff elem).1 helem).1, hread]
      simp
    | tag quals kind name =>
      simp only [fitsSyntax, Bool.and_eq_true] at hspelled
      have hname := readTag_append hspelled.2 (Or.inr rfl) rest
      simp only [encode, List.append_assoc, List.cons_append, List.nil_append]
      rw [read_quals hspelled.1 (by cases kind <;> decide), readUnqualified_opener]
      simp [readAggregate, hname]
    | aggregate quals kind name members =>
      have hmembers : ∀ m ∈ members, m.type.isWellFormed = true :=
        fun m hm => hwell m.type (List.mem_map_of_mem hm)
      have hfits : members.all (memberFits (startsNamed members)) = true := by
        simp only [fitsSyntax, Bool.and_eq_true] at hspelled
        exact hspelled.2
      have hread := ih.members hmembers (fun m hm => hclear m.type (List.mem_map_of_mem hm)) hfits
        hapart (Nat.le_of_succ_le_succ hheight) kind rest
      have hhead := read_aggregate_append depth named rest hspelled
        fun m hm => ((isWellFormed_iff m.type).1 (hmembers m hm)).1
      rw [hhead, hread]
      rfl
    -- from here on the end of the node is not marked, and what follows it counts
    | bitfield quals bits =>
      simp only [fitsSyntax, Bool.and_eq_true, decide_eq_true_eq] at hspelled
      have hnumber := readNumber_dec hspelled.2 (hfollows.not_digit rfl)
      rw [encode, List.append_assoc, List.cons_append, read_quals hspelled.1 (by decide)]
      have hcode : Char.ofUInt8 (byte 'b') = 'b' := by decide
      simp [readUnqualified, hcode, hnumber]
    | block quals =>
      rw [fitsSyntax] at hspelled
      rw [encode, List.append_assoc, List.cons_append, read_quals hspelled (by decide)]
      change readBlock (read depth false) quals rest = _
      cases rest with
      | nil => rfl
      | cons c rest =>
        have hangle : c ≠ byte '<' := by simpa using hfollows.not_angle rfl
        simp [readBlock, hangle]
    | signature quals result params =>
      obtain ⟨hresult, hparams⟩ :=
        ih.signature hwell hclear hapart (Nat.le_of_succ_le_succ hheight) rest
      rw [read_signature_append depth named rest hspelled, hresult, Option.bind_some, hparams]
      rfl
    | object quals name protocols =>
      have hhead := read_object_append depth named rest hspelled
      simp only [fitsSyntax, Bool.and_eq_true] at hspelled
      obtain ⟨hquestion, hread⟩ := readObjectNames_append hspelled.1.2 hspelled.2 hfollows
      rw [hhead, if_neg hquestion, hread]

/-- Every canonical type of limited height is read back at a depth. -/
def ReadsBack (depth : Nat) : Prop :=
  ∀ (named : Bool) (t : ObjcType) (rest : Text), t.isCanonical = true → t.height ≤ depth →
    Follows named t rest → read depth named (t.encode ++ rest) = some (t, rest)

/-- A canonical type is read back at every depth, whatever follows it. -/
theorem readsBack (depth : Nat) : ReadsBack depth := fun named t rest hcanonical =>
  readsEncoding depth named t rest (isWellFormed_of_isCanonical hcanonical)
    (isUnambiguous_of_isCanonical hcanonical)

/-- The encoding of a canonical type is read up to its end. -/
theorem read_encode_of_isCanonical {t : ObjcType} (hcanonical : t.isCanonical = true)
    (hheight : t.height ≤ maxDepth) : read maxDepth false t.encode = some (t, []) := by
  have hread := readsBack maxDepth false t [] hcanonical hheight (Follows.nil false t)
  rwa [List.append_nil] at hread

/-- Decoding undoes encoding: the encoding of a canonical type that is not nested too deep is
decoded to the type, and nothing is left over. -/
theorem decode_encode_of_isCanonical (t : ObjcType) (hcanonical : t.isCanonical = true)
    (hheight : t.height ≤ maxDepth) :
    decode t.encode = (t, []) ∧ parse t.encode = t := by
  have hread := readsBack maxDepth false t [] hcanonical hheight (Follows.nil false t)
  have hdecode : decode t.encode = (t, []) := by
    rw [decode, ← List.append_nil t.encode, hread, Option.getD_some]
  exact ⟨hdecode, by simp only [parse, hdecode]⟩

/-- A structure of a template that has named members: a class with protocols, a bit field with a
width, a block with parameters and an array of unions, and last a pointer to an object. -/
def sampleType : ObjcType :=
  .aggregate "r" .struct "pair<a=b\x7d>" [
    ⟨"delegate", .object "A" "Item" ["P", "Q"], 0⟩,
    ⟨"flags", .bitfield [] 3, 5⟩,
    ⟨"handler", .signature [] (.object [] [] []) [.selector "n", .block [],
      .primitive "r" (byte '?')], 0⟩,
    ⟨"rows", .array [] 12 (.aggregate [] .union "u" [
      ⟨[], .object [] [] [], 0⟩, ⟨[], .selector [], 0⟩, ⟨[], .function [], 7⟩]), 0⟩,
    ⟨"next", .pointer [] (.pointer "r" (.object [] [] [])), 0⟩]

/-- The encoding of the sample is decoded to the sample. -/
theorem decode_encode_sampleType :
    (sampleType.isCanonical = true ∧ sampleType.height ≤ maxDepth) ∧
      decode sampleType.encode = (sampleType, []) ∧ parse sampleType.encode = sampleType :=
  ⟨by decide +kernel,
    decode_encode_of_isCanonical sampleType (by decide +kernel) (by decide +kernel)⟩

end ObjcType

end ObjcLens
