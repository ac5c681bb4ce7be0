import Mathlib
import ObjcLens.Proofs.ObjcType.WellFormed
import ObjcLens.Proofs.Text.Cut

/-!
# What may follow an encoding

Whether a type is read back depends on the text behind its encoding. `Follows` collects what the
reader looks ahead for. The parts of an encoding are read back one by one: qualifiers, names of
aggregates, names of objects, and the heads of types, which `startsType` describes.

## Main results

* `Follows`: what may stand behind the encoding of a type.
* `encode_eq_cons`: how the encoding of a type starts.
* `readTag_append`: the name of an aggregate is read back.
* `objectNames_append`: class and protocol names are read back.
* `readObjectNames_bare`, `readObjectNames_quoted`: the two ways to read an object.
-/

namespace ObjcLens

namespace ObjcType

/-- The byte starts the encoding of a type. -/
def startsType (c : UInt8) : Bool :=
  isQualifier c || (primitiveName? c).isSome ||
    [byte '^', byte '[', byte '{', byte '(', byte 'b', byte '@', byte ':', byte '#'].contains c

/-- The byte ends the quoted class of a named member. -/
def closesQuoted (c : UInt8) : Bool := c = byte '"' || c = byte '}' || c = byte ')'

/-- A byte that starts a type is no digit and none of the marks that follow types. -/
theorem startsType_spec (c : UInt8) (h : startsType c = true) :
    Text.isDigit c = false ∧ closesQuoted c = false ∧ c ≠ byte '<' ∧ c ≠ byte '>' ∧
      c ≠ byte ']' := by
  have hall : ∀ n : Fin 256, startsType (UInt8.ofFin n) = true →
      Text.isDigit (UInt8.ofFin n) = false ∧ closesQuoted (UInt8.ofFin n) = false ∧
        UInt8.ofFin n ≠ byte '<' ∧ UInt8.ofFin n ≠ byte '>' ∧ UInt8.ofFin n ≠ byte ']' := by
    decide +kernel
  exact hall c.toFin h

/-- The letters of types do not qualify types. -/
theorem not_isQualifier_of_primitive {c : UInt8} (h : (primitiveName? c).isSome = true) :
    isQualifier c = false := by
  have hall : ∀ n : Fin 256, (primitiveName? (UInt8.ofFin n)).isSome = true →
      isQualifier (UInt8.ofFin n) = false := by
    decide +kernel
  exact hall c.toFin h

/-- Qualifiers and the byte behind them start with a qualifier or, if there are none, with the
byte. -/
private theorem quals_append_eq_cons {quals : Text} (hquals : quals.all isQualifier = true)
    (code : UInt8) (tail : Text) :
    ∃ c rest, quals ++ code :: tail = c :: rest ∧
      (isQualifier c = true ∨ quals = [] ∧ c = code ∧ rest = tail) := by
  cases quals with
  | nil => exact ⟨code, tail, rfl, Or.inr ⟨rfl, rfl, rfl⟩⟩
  | cons q quals =>
    rw [List.all_cons, Bool.and_eq_true] at hquals
    exact ⟨q, quals ++ code :: tail, rfl, Or.inl hquals.1⟩

/-- The encoding of a type that the reader can make is not empty. It starts with `?` only for that
letter alone, and with a colon only for a selector alone. -/
theorem encode_eq_cons {t : ObjcType} (h : t.fitsSyntax = true) :
    ∃ c rest, t.encode = c :: rest ∧ startsType c = true ∧
      (c = byte '?' → t.isBareQuestion = true) ∧ (c = byte ':' → rest = []) := by
  -- every encoding is `quals ++ code :: tail`; the head is a qualifier or the code
  have key (quals : Text) (code : UInt8) (tail : Text) (hquals : quals.all isQualifier = true)
      (hcode : startsType code = true)
      (hquestion : quals = [] → code = byte '?' → t.isBareQuestion = true)
      (hcolon : code = byte ':' → tail = []) :
      ∃ c rest, quals ++ code :: tail = c :: rest ∧ startsType c = true ∧
        (c = byte '?' → t.isBareQuestion = true) ∧ (c = byte ':' → rest = []) := by
    obtain ⟨c, rest, heq, hc | ⟨hnil, rfl, rfl⟩⟩ := quals_append_eq_cons hquals code tail
    · refine ⟨c, rest, heq, by simp [startsType, hc], ?_, ?_⟩
      · rintro rfl
        exact absurd hc (by decide)
      · rintro rfl
        exact absurd hc (by decide)
    · exact ⟨c, rest, heq, hcode, hquestion hnil, hcolon⟩
  have other (quals : Text) (code : UInt8) (tail : Text) (hquals : quals.all isQualifier = true)
      (hcode : startsType code = true ∧ code ≠ byte '?' ∧ code ≠ byte ':') :=
    key quals code tail hquals hcode.1 (fun _ hq => absurd hq hcode.2.1)
      (fun hc => absurd hc hcode.2.2)
  cases t with
  | unknown raw => simp [fitsSyntax] at h
  | primitive quals code =>
    simp only [fitsSyntax, Bool.and_eq_true] at h
    refine key quals code [] h.1 (by simp [startsType, h.2]) ?_ (fun _ => rfl)
    rintro rfl rfl
    rfl
  | selector quals =>
    simp only [fitsSyntax] at h
    exact key quals (byte ':') [] h (by decide) (fun _ hq => absurd hq (by decide)) (fun _ => rfl)
  | pointer quals elem =>
    simp only [fitsSyntax, Bool.and_eq_true] at h
    exact other quals (byte '^') elem.encode h.1 (by decide)
  | array quals length elem =>
    simp only [fitsSyntax, Bool.and_eq_true] at h
    simp only [encode, List.append_assoc, List.cons_append]
    exact other quals (byte '[') _ h.1 (by decide)
  | tag quals kind name =>
    simp only [fitsSyntax, Bool.and_eq_true] at h
    simp only [encode, List.append_assoc, List.cons_append]
    exact other quals kind.opener _ h.1 (by cases kind <;> decide)
  | aggregate quals kind name members =>
    simp only [fitsSyntax, Bool.and_eq_true] at h
    simp only [encode, List.append_assoc, List.cons_append]
    exact other quals kind.opener _ h.1.1 (by cases kind <;> decide)
  | bitfield quals bits =>
    simp only [fitsSyntax, Bool.and_eq_true] at h
    exact other quals (byte 'b') _ h.1 (by decide)
  | function quals =>
    simp only [fitsSyntax] at h
    exact other quals (byte '^') _ h (by decide)
  | block quals =>
    simp only [fitsSyntax] at h
    exact other quals (byte '@') _ h (by decide)
  | signature quals result params =>
    simp only [fitsSyntax] at h
    simp only [encode, List.append_assoc, List.cons_append]
    exact other quals (byte '@') _ h (by decide)
  | object quals name protocols =>
    simp only [fitsSyntax, Bool.and_eq_true] at h
    exact other quals (byte '@') _ h.1.1 (by decide)
  | classObject quals =>
    simp only [fitsSyntax] at h
    exact other quals (byte '#') [] h (by decide)

/-- Qualifiers are read back: what is behind them decides how the type is read. -/
theorem read_quals {quals : Text} (hquals : quals.all isQualifier = true) {code : UInt8}
    (hcode : isQualifier code = false) (depth : Nat) (named : Bool) (rest : Text) :
    read (depth + 1) named (quals ++ code :: rest) =
      readUnqualified (read depth) named quals code rest := by
  rw [List.all_eq_true] at hquals
  obtain ⟨htake, hdrop⟩ :=
    takeWhile_append_of_startsNot hquals (StartsNot.cons hcode rest)
  simp only [read, hdrop, htake]

/-- The name of an aggregate is read back up to the mark that ends it. -/
theorem readTag_append {closer : UInt8} {depth : Int} {name : Text}
    (h : isTagName closer depth name = true) {c : UInt8} (hc : c = byte '=' ∨ c = closer)
    (rest : Text) : readTag closer depth (name ++ c :: rest) = some (name, c :: rest) := by
  induction name generalizing depth with
  | nil =>
    have hdepth : depth = 0 := by simpa [isTagName] using h
    simp [readTag, hdepth, hc]
  | cons d name ih =>
    rw [isTagName, Bool.and_eq_true, Bool.not_eq_true'] at h
    simp only [List.cons_append, readTag, h.1, Bool.false_eq_true, if_false, ih h.2,
      Option.map_some]

/-- The name that is read is in front of the mark that ends it. -/
theorem eq_append_of_readTag {closer : UInt8} {depth : Int} {s name rest : Text}
    (h : readTag closer depth s = some (name, rest)) :
    s = name ++ rest ∧ isTagName closer depth name = true ∧
      ∃ c tail, rest = c :: tail ∧ (c = byte '=' ∨ c = closer) := by
  induction s generalizing depth name with
  | nil => cases h
  | cons c s ih =>
    rw [readTag] at h
    split at h
    · rename_i hend
      obtain ⟨rfl, rfl⟩ := Prod.mk.inj (Option.some.inj h)
      simp only [Bool.and_eq_true, decide_eq_true_eq, Bool.or_eq_true] at hend
      exact ⟨rfl, by simpa [isTagName] using hend.1, c, s, rfl, hend.2⟩
    · rename_i hgo
      obtain ⟨⟨name', rest'⟩, hread, heq⟩ := Option.map_eq_some_iff.1 h
      obtain ⟨rfl, rfl⟩ := Prod.mk.inj heq
      obtain ⟨rfl, hname, hend⟩ := ih hread
      refine ⟨rfl, ?_, hend⟩
      rw [isTagName, Bool.and_eq_true, Bool.not_eq_true']
      exact ⟨Bool.eq_false_iff.2 hgo, hname⟩

/-- Protocol names, each in angle brackets. -/
private def angled (protocols : List Text) : Text :=
  protocols.flatMap fun p => byte '<' :: p ++ [byte '>']

/-- Each protocol stands in angle brackets of its own. -/
private theorem angled_cons (p : Text) (protocols : List Text) :
    angled (p :: protocols) = byte '<' :: p ++ byte '>' :: angled protocols := by
  simp [angled]

private theorem length_le_length_angled (protocols : List Text) :
    protocols.length ≤ (angled protocols).length := by
  induction protocols with
  | nil => simp
  | cons p rest ih =>
    rw [angled_cons, List.length_cons, List.length_append, List.length_cons, List.length_cons]
    omega

private theorem ofString_angles : Text.ofString "><" = [byte '>', byte '<'] := by decide

/-- Angle brackets around a protocol name are trimmed. -/
private theorem trim_protocolName {p before after : Text} (hp : isProtocolName p = true)
    (hbefore : ∀ b ∈ before, isAngle b = true) (hafter : ∀ b ∈ after, isAngle b = true) :
    Text.trim (fun c => c = byte '<' || c = byte '>') (before ++ p ++ after) = p := by
  -- a name neither starts nor ends with an angle bracket, so trimming stops at its ends
  obtain ⟨hne, -, hhead, hlast, -⟩ := isProtocolName_iff.1 hp
  exact Text.trim_append hne hhead hlast hbefore hafter

/-- The separator of protocol names does not occur in one, nor behind an opening bracket. -/
private theorem cutText?_protocolName {p lead : Text} (hp : isProtocolName p = true)
    (hlead : lead = [] ∨ lead = [byte '<']) :
    Text.cutText? [byte '>', byte '<'] (lead ++ p) = none := by
  obtain ⟨-, -, -, -, hwithin⟩ := isProtocolName_iff.1 hp
  rw [ofString_angles] at hwithin
  rcases hlead with rfl | rfl
  · exact hwithin
  -- behind the bracket in front the search starts with the name itself
  · have hne : (byte '>' == byte '<') = false := by decide
    simp [Text.cutText?, List.isPrefixOf, hne, hwithin]

/-- Protocol names are found between their angle brackets. The induction is on the names behind
the first; only the first one of all still has its opening bracket. -/
private theorem splitOnTextFuel_angled (protocols : List Text)
    (hall : protocols.all isProtocolName = true) {p : Text} (hp : isProtocolName p = true)
    {lead : Text} (hlead : lead = [] ∨ lead = [byte '<']) {fuel : Nat}
    (hfuel : protocols.length < fuel) :
    (Text.splitOnTextFuel "><" fuel (lead ++ p ++ byte '>' :: angled protocols)).map
      (Text.trim fun c => c = byte '<' || c = byte '>') = p :: protocols := by
  have hangles : byte '>' ≠ byte '<' := by decide
  induction protocols generalizing p lead fuel with
  | nil =>
    obtain ⟨fuel, rfl⟩ : ∃ n, fuel = n + 1 := ⟨fuel - 1, by omega⟩
    have hbefore : ∀ b ∈ lead, isAngle b = true := by rcases hlead with rfl | rfl <;> simp [isAngle]
    -- the last name has only its own closing bracket behind it
    have hcut := Text.cutText?_append_single hangles (cutText?_protocolName hp hlead)
    have htrim : Text.trim (fun c => c = byte '<' || c = byte '>') (lead ++ p ++ [byte '>']) = p :=
      trim_protocolName hp hbefore (by simp [isAngle])
    simp only [ofString_angles, angled, List.flatMap_nil, Text.splitOnTextFuel, hcut,
      List.map_cons, List.map_nil, htrim]
  | cons q rest ih =>
    obtain ⟨fuel, rfl⟩ : ∃ n, fuel = n + 1 := ⟨fuel - 1, by omega⟩
    have hbefore : ∀ b ∈ lead, isAngle b = true := by rcases hlead with rfl | rfl <;> simp [isAngle]
    rw [List.all_cons, Bool.and_eq_true] at hall
    -- the first separator is the one behind this name, since no name contains it
    have hcut := Text.cutText?_append_pair hangles (cutText?_protocolName hp hlead)
      (q ++ byte '>' :: angled rest)
    have htrim : Text.trim (fun c => c = byte '<' || c = byte '>') (lead ++ p) = p := by
      have htrim' := trim_protocolName hp hbefore (List.forall_mem_nil _)
      rwa [List.append_nil] at htrim'
    have hnext := ih hall.2 hall.1 (Or.inl rfl) (Nat.lt_of_succ_lt_succ hfuel)
    rw [List.nil_append] at hnext
    rw [angled_cons, List.cons_append]
    simp only [ofString_angles, Text.splitOnTextFuel, hcut, List.map_cons, htrim]
    rw [← ofString_angles, hnext]

/-- The names of an object are read back from the text between its quotation marks. -/
theorem objectNames_append {name : Text} (hname : isClassName name = true) {protocols : List Text}
    (hall : protocols.all isProtocolName = true) :
    objectNames (name ++ protocols.flatMap fun p => byte '<' :: p ++ [byte '>']) =
      (name, protocols) := by
  change objectNames (name ++ angled protocols) = _
  have hrun : ∀ b ∈ name, (b != byte '<') = true := by
    intro b hb
    rw [bne_iff_ne]
    rintro rfl
    exact (isClassName_iff.1 hname).2 hb
  have hstart : StartsNot (· != byte '<') (angled protocols) := by
    cases protocols with
    | nil => exact StartsNot.nil _
    | cons p rest => simp [angled_cons, StartsNot]
  obtain ⟨htake, hdrop⟩ := takeWhile_append_of_startsNot hrun hstart
  simp only [objectNames, htake, hdrop, Prod.mk.injEq, true_and]
  cases protocols with
  | nil => decide
  | cons p rest =>
    have hne : ∀ q ∈ p :: rest, (!q.isEmpty) = true := by
      intro q hq
      simpa using (isProtocolName_iff.1 (List.all_eq_true.1 hall q hq)).1
    rw [List.all_cons, Bool.and_eq_true] at hall
    have hsplit := splitOnTextFuel_angled rest hall.2 hall.1 (Or.inr rfl)
      (length_le_length_angled (p :: rest))
    rw [List.singleton_append, ← angled_cons] at hsplit
    rw [Text.splitOnText, hsplit]
    exact List.filter_eq_self.2 hne

/-- The text starts with a quoted name and a type behind it. -/
def StartsWithName (s : Text) : Prop :=
  ∃ name c rest, s = quoted name ++ c :: rest ∧ isQuoteFree name = true ∧ startsType c = true

/-- Text behind an object without names is left alone, if it starts with no quotation mark or is
the name of the next member. -/
theorem readObjectNames_bare {named : Bool} {s : Text}
    (h : s.head? = some (byte '"') → named = true ∧ StartsWithName s) :
    readObjectNames named s = (([], []), s) := by
  cases s with
  | nil => rfl
  | cons c rest =>
    by_cases hc : c = byte '"'
    · obtain ⟨rfl, name, d, more, hs, hname, hd⟩ := h (by rw [hc]; rfl)
      have hrest : rest = name ++ byte '"' :: d :: more := by
        simpa [quoted, hc] using hs
      have hcut : Text.cut? (byte '"') rest = some (name, d :: more) := by
        rw [hrest]
        exact Text.cut?_append (by simpa [isQuoteFree] using hname) _
      have hclose : closesQuoted d = false := (startsType_spec d hd).2.1
      have hclose' : (d = byte '"' || d = byte '}' || d = byte ')') = false := hclose
      simp [readObjectNames, hc, hcut, hclose']
    · simp [readObjectNames, hc]

/-- Class and protocol names have no quotation mark, nor have the brackets around them. -/
theorem quote_notMem_names {name : Text} (hname : isClassName name = true)
    {protocols : List Text} (hall : protocols.all isProtocolName = true) :
    byte '"' ∉ name ++ protocols.flatMap fun p => byte '<' :: p ++ [byte '>'] := by
  rw [List.mem_append, List.mem_flatMap]
  rintro (hquote | ⟨p, hp, hquote⟩)
  · exact (isClassName_iff.1 hname).1 hquote
  · obtain ⟨-, hfree, -⟩ := isProtocolName_iff.1 (List.all_eq_true.1 hall p hp)
    rw [List.cons_append, List.mem_cons, List.mem_append, List.mem_singleton] at hquote
    rcases hquote with hquote | hquote | hquote
    · exact absurd hquote (by decide)
    · exact hfree hquote
    · exact absurd hquote (by decide)

/-- Quoted text behind an object is taken as its names, if among named members the text behind it
ends the member. -/
theorem readObjectNames_of_closes {names : Text} (hfree : byte '"' ∉ names) {named : Bool}
    {rest : Text} (h : named = true → ∀ c ∈ rest.head?, closesQuoted c = true) :
    readObjectNames named (quoted names ++ rest) = (objectNames names, rest) := by
  have hcut := Text.cut?_append hfree rest
  have hquoted : quoted names ++ rest = byte '"' :: (names ++ byte '"' :: rest) := by
    simp [quoted]
  rw [hquoted]
  -- only among named members the byte behind the names is looked at
  cases named with
  | false => simp [readObjectNames, hcut]
  | true =>
    cases rest with
    | nil => simp [readObjectNames, hcut]
    | cons d rest =>
      have hclose : (d = byte '"' || d = byte '}' || d = byte ')') = true := h rfl d rfl
      simp only [readObjectNames, ne_eq, not_true_eq_false, if_false, hcut, hclose,
        Bool.or_true, if_true]

/-- The quoted names of an object are read back. -/
theorem readObjectNames_quoted {name : Text} (hname : isClassName name = true)
    {protocols : List Text} (hall : protocols.all isProtocolName = true) {named : Bool}
    {rest : Text} (h : named = true → ∀ c ∈ rest.head?, closesQuoted c = true) :
    readObjectNames named
        (quoted (name ++ protocols.flatMap fun p => byte '<' :: p ++ [byte '>']) ++ rest) =
      ((name, protocols), rest) := by
  rw [readObjectNames_of_closes (quote_notMem_names hname hall) h, objectNames_append hname hall]

/-- The text may stand behind the encoding of a type, among named members or elsewhere. -/
structure Follows (named : Bool) (t : ObjcType) (rest : Text) : Prop where
  /-- No digit continues the width of a bit field. -/
  not_digit : t.endsInBitfield = true → StartsNot Text.isDigit rest
  /-- No angle bracket makes a signature of a block. -/
  not_angle : t.endsInBareBlock = true → rest.head? ≠ some (byte '<')
  /-- No question mark makes a block of an object. -/
  not_question : t.endsInBareObject = true → rest.head? ≠ some (byte '?')
  /-- Quoted text behind an object is the name of the next member. -/
  not_quote : t.endsInBareObject = true → rest.head? = some (byte '"') →
    named = true ∧ t.isChainToBareObject = false ∧ StartsWithName rest
  /-- The quoted class of a named member is at the end of the member. -/
  ends_quote : named = true → t.isQualifiedObject = true →
    ∀ c ∈ rest.head?, closesQuoted c = true

/-- Nothing has to follow a type. -/
theorem Follows.nil (named : Bool) (t : ObjcType) : Follows named t [] where
  not_digit _ := StartsNot.nil _
  not_angle := by simp
  not_question := by simp
  not_quote := by simp
  ends_quote := by simp

/-- Most marks may follow any type. -/
theorem Follows.of_mark {named : Bool} {t : ObjcType} {c : UInt8} (hdigit : Text.isDigit c = false)
    (hmark : c ≠ byte '<' ∧ c ≠ byte '?' ∧ c ≠ byte '"')
    (hclose : named = true → t.isQualifiedObject = true → closesQuoted c = true) (rest : Text) :
    Follows named t (c :: rest) where
  not_digit _ := StartsNot.cons hdigit rest
  not_angle := by simpa using fun _ => hmark.1
  not_question := by simpa using fun _ => hmark.2.1
  not_quote := by simp [hmark.2.2]
  ends_quote := by simpa using hclose

/-- The head of a type may follow another type, unless it is a question mark behind an object. Among
named members it does not follow the quoted class of an object. -/
theorem Follows.of_startsType {named : Bool} {t : ObjcType} {c : UInt8}
    (hc : startsType c = true) (hquestion : t.endsInBareObject = true → c ≠ byte '?')
    (hqualified : named = true → t.isQualifiedObject = false) (rest : Text) :
    Follows named t (c :: rest) := by
  obtain ⟨hdigit, hclose, hangle, -, -⟩ := startsType_spec c hc
  have hquote : c ≠ byte '"' := by
    rintro rfl
    exact absurd hclose (by decide)
  exact {
    not_digit := fun _ => StartsNot.cons hdigit rest
    not_angle := by simpa using fun _ => hangle
    not_question := by simpa using hquestion
    not_quote := by simp [hquote]
    ends_quote := fun hnamed hobject => absurd hobject (by simp [hqualified hnamed]) }

/-- The name of the next member may follow a type that does not end in a bare object. It may follow
the bare object itself among named members. -/
theorem Follows.of_name {named : Bool} {t : ObjcType}
    (hbare : t.endsInBareObject = true → named = true ∧ t.isChainToBareObject = false)
    {name : Text} (hname : isQuoteFree name = true) {c : UInt8} (hc : startsType c = true)
    (rest : Text) : Follows named t (quoted name ++ c :: rest) := by
  have hangle : byte '"' ≠ byte '<' := by decide
  have hquestion : byte '"' ≠ byte '?' := by decide
  exact {
    not_digit := fun _ => StartsNot.cons (by decide) _
    not_angle := by simpa [quoted] using fun _ => hangle
    not_question := by simpa [quoted] using fun _ => hquestion
    not_quote := fun h _ => ⟨(hbare h).1, (hbare h).2, name, c, rest, rfl, hname, hc⟩
    ends_quote := by simp [quoted, closesQuoted] }

/-- What may follow a pointer may follow what it points to. Names of members do not follow a
pointer to an object. -/
theorem Follows.elem {named : Bool} {quals : Text} {elem : ObjcType} {rest : Text}
    (h : Follows named (.pointer quals elem) rest) : Follows false elem rest where
  not_digit := h.not_digit
  not_angle := h.not_angle
  not_question := h.not_question
  -- the pointer is itself a chain to what ends in a bare object, which a name must not follow
  not_quote hbare hquote := by
    have hchain : elem.endsInBareObject = false := (h.not_quote hbare hquote).2.1
    exact absurd hbare (by simp [hchain])
  ends_quote := by simp

end ObjcType

end ObjcLens
