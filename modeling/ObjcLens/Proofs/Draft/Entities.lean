import Mathlib
import ObjcLens.Proofs.Draft.Members

/-!
# Classes, protocols and categories are read as they were written

Every record that is drafted is read back with all its members, and its name is read back wherever
another record refers to it. The names behind addresses are those of the records at the addresses,
so what a record is read as depends on the records that it refers to.

## Main results

* `Adds.addClass`, `Adds.addProtocol`, `Adds.addCategory`: records are read back and listed.
-/

namespace ObjcLens

/-- Flags in the lowest bits do not reach the bits of a mask above them. -/
private theorem or_and_mask {n flags low bits : Nat} (hn : 2 ^ low ∣ n) (hlt : n < 2 ^ bits)
    (hflags : flags < 2 ^ low) (hle : low ≤ bits) :
    (n ||| flags) &&& (2 ^ bits - 2 ^ low) = n := by
  have hmask : 2 ^ bits - 2 ^ low = 2 ^ low * (2 ^ (bits - low) - 1) := by
    rw [Nat.mul_sub, ← Nat.pow_add, Nat.add_sub_cancel' hle, Nat.mul_one]
  obtain ⟨q, rfl⟩ := hn
  refine Nat.eq_of_testBit_eq fun i => ?_
  rw [hmask, Nat.testBit_and, Nat.testBit_or, Nat.testBit_two_pow_mul, Nat.testBit_two_pow_mul,
    Nat.testBit_two_pow_sub_one]
  -- the number has no bit below, the flags have none from there on
  by_cases hlow : low ≤ i
  · have hflag : flags.testBit i = false := Nat.testBit_lt_two_pow
      (hflags.trans_le (Nat.pow_le_pow_right Nat.two_pos hlow))
    by_cases htop : i < bits
    · have hinside : i - low < bits - low := by omega
      simp [hlow, hflag, hinside]
    · have hbit := Nat.testBit_lt_two_pow
        (hlt.trans_le (Nat.pow_le_pow_right Nat.two_pos (Nat.le_of_not_lt htop)))
      rw [Nat.testBit_two_pow_mul] at hbit
      rw [hbit, hflag, Bool.or_self, Bool.false_and]
  · simp [hlow]

/-- The word of a class leads to its data, whatever its flags are. -/
theorem ClassDataWord.address_or {addr flags : UInt64} {is64 : Bool}
    (haddr : addr.toNat % 8 = 0) (hlt : addr.toNat < if is64 then 2 ^ 47 else 2 ^ 32)
    (hflags : flags.toNat < 4) : ClassDataWord.address (addr ||| flags) is64 = addr := by
  apply UInt64.toNat_inj.1
  rw [ClassDataWord.address, UInt64.toNat_and, UInt64.toNat_or]
  cases is64 with
  | true => exact @or_and_mask _ _ 3 47 (Nat.dvd_of_mod_eq_zero haddr) hlt (by omega) (by decide)
  | false => exact @or_and_mask _ _ 2 32 (by omega) hlt hflags (by decide)

/-- The flags are read from the word of a class. -/
theorem ClassDataWord.or_and {addr flags mask : UInt64} (haddr : addr.toNat % 8 = 0)
    (hmask : mask.toNat < 8) : (addr ||| flags) &&& mask = flags &&& mask := by
  apply UInt64.toNat_inj.1
  rw [UInt64.toNat_and, UInt64.toNat_and, UInt64.toNat_or]
  refine Nat.eq_of_testBit_eq fun i => ?_
  rw [Nat.testBit_and, Nat.testBit_and, Nat.testBit_or]
  -- an address of eight bytes has its lowest three bits clear, and the mask has no others
  by_cases hlow : i < 3
  · have hbit : addr.toNat.testBit i = false := by
      obtain ⟨q, hq⟩ : 2 ^ 3 ∣ addr.toNat := Nat.dvd_of_mod_eq_zero haddr
      rw [hq, Nat.testBit_two_pow_mul, decide_eq_false (by omega), Bool.false_and]
    rw [hbit, Bool.false_or]
  · have hbit : mask.toNat.testBit i = false := Nat.testBit_lt_two_pow
      (hmask.trans_le (Nat.pow_le_pow_right Nat.two_pos (Nat.le_of_not_lt hlow)))
    rw [hbit, Bool.and_false, Bool.and_false]

/-- The texts of the class and its members have no zero bytes. -/
@[mk_iff]
structure DraftClass.NulFree (c : DraftClass) : Prop where
  name : 0 ∉ c.name
  instanceMethods : ∀ m ∈ c.instanceMethods, m.NulFree
  classMethods : ∀ m ∈ c.classMethods, m.NulFree
  ivars : ∀ v ∈ c.ivars, v.NulFree
  properties : ∀ p ∈ c.properties, p.NulFree

instance (c : DraftClass) : Decidable c.NulFree :=
  decidable_of_iff _ (DraftClass.nulFree_iff c).symm

/-- The names of the records at addresses. -/
structure RecordNames where
  /-- The names of classes. -/
  ofClass : UInt64 → Text
  /-- The names of protocols. -/
  ofProtocol : UInt64 → Text

/-- The name of the class at an address, empty for the address zero. -/
def RecordNames.classAt (names : RecordNames) (addr : UInt64) : Text :=
  if addr = 0 then [] else names.ofClass addr

/-- The flags of a class. -/
def DraftClass.flags (c : DraftClass) : ClassFlags :=
  if c.isRoot then Drafting.rootFlag else 0

/-- The class as it is read. -/
def DraftClass.toClass (c : DraftClass) (names : RecordNames) (code addr : UInt64) : Class where
  name := c.name
  superclass := if c.isRoot then [] else names.classAt c.superclass
  protocols := c.protocols.map names.ofProtocol
  ivars := c.ivars.map (·.toIvar)
  classMethods := c.classMethods.map (·.toMethod code true)
  instanceMethods := c.instanceMethods.map (·.toMethod code false)
  properties := c.properties.map (·.toProperty)
  isSwiftStable := c.isSwift
  flags := c.flags
  addr := addr

/-- The texts of the category and its members have no zero bytes. -/
@[mk_iff]
structure DraftCategory.NulFree (c : DraftCategory) : Prop where
  name : 0 ∉ c.name
  instanceMethods : ∀ m ∈ c.instanceMethods, m.NulFree
  classMethods : ∀ m ∈ c.classMethods, m.NulFree
  properties : ∀ p ∈ c.properties, p.NulFree

instance (c : DraftCategory) : Decidable c.NulFree :=
  decidable_of_iff _ (DraftCategory.nulFree_iff c).symm

/-- The category as it is read. -/
def DraftCategory.toCategory (c : DraftCategory) (names : RecordNames) (code addr : UInt64) :
    Category where
  name := c.name
  className := names.classAt c.classAddr
  protocols := c.protocols.map names.ofProtocol
  classMethods := c.classMethods.map (·.toMethod code true)
  instanceMethods := c.instanceMethods.map (·.toMethod code false)
  properties := c.properties.map (·.toProperty)
  addr := addr

/-- The method with another signature, unless that is empty. -/
def DraftMethod.extend (m : DraftMethod) (types : Text) : DraftMethod :=
  if types.isEmpty then m else { m with types }

/-- A drafted method is read with an extended signature. -/
theorem DraftMethod.toMethod_extend (m : DraftMethod) (types : Text) (code : UInt64)
    (isClassMethod : Bool) : (m.extend types).toMethod code isClassMethod =
      (m.toMethod code isClassMethod).withTypes types := by
  unfold DraftMethod.extend Method.withTypes
  split <;> rfl

/-- The texts of the protocol and its members have no zero bytes. -/
@[mk_iff]
structure DraftProtocol.NulFree (p : DraftProtocol) : Prop where
  name : 0 ∉ p.name
  instanceMethods : ∀ m ∈ p.instanceMethods, m.NulFree
  classMethods : ∀ m ∈ p.classMethods, m.NulFree
  optionalInstanceMethods : ∀ m ∈ p.optionalInstanceMethods, m.NulFree
  properties : ∀ q ∈ p.properties, q.NulFree
  extendedTypes : ∀ t ∈ p.extendedTypes, 0 ∉ t

instance (p : DraftProtocol) : Decidable p.NulFree :=
  decidable_of_iff _ (DraftProtocol.nulFree_iff p).symm

/-- The number of methods of a protocol. -/
def DraftProtocol.methodCount (p : DraftProtocol) : Nat :=
  p.instanceMethods.length + p.classMethods.length + p.optionalInstanceMethods.length

/-- Methods of the protocol with their extended signatures, if there are any. Those of the methods
in front are skipped. -/
def DraftProtocol.extended (p : DraftProtocol) (skipped : Nat) (ms : List DraftMethod) :
    List DraftMethod :=
  if p.extendedTypes.isEmpty then ms
  else List.zipWith DraftMethod.extend ms (p.extendedTypes.drop skipped)

/-- The protocol as it is read. -/
def DraftProtocol.toProtocol (p : DraftProtocol) (names : RecordNames) (code addr : UInt64) :
    Protocol where
  name := p.name
  protocols := p.protocols.map names.ofProtocol
  instanceMethods := (p.extended 0 p.instanceMethods).map (·.toMethod code false)
  classMethods :=
    (p.extended p.instanceMethods.length p.classMethods).map (·.toMethod code true)
  optionalInstanceMethods :=
    (p.extended (p.instanceMethods.length + p.classMethods.length)
      p.optionalInstanceMethods).map (·.toMethod code false)
  properties := p.properties.map (·.toProperty)
  addr := addr

namespace RecordReader

variable {context : Context} {addr : UInt64}

/-- The address leads to a protocol of the name. -/
def IsProtocol (context : Context) (addr : UInt64) (name : Text) : Prop :=
  context.Near addr ∧ ProtocolNamed context addr name

/-- A reference to a class is read as the name of the class, unless it is null. -/
theorem Reads.classReference {names : RecordNames}
    (h : addr ≠ 0 → ClassNamed context addr (names.ofClass addr)) :
    Reads context (classReference ⟨addr, []⟩) (names.classAt addr) := by
  change Reads context (if addr = 0 then _ else _) _
  rw [RecordNames.classAt]
  split
  · exact pure []
  · rename_i hne
    exact className (h hne)

/-- The words of a class record are read. -/
theorem Yields.classRecord {isa superclass data : UInt64}
    (hfits : ∀ v ∈ [isa, superclass, data], context.Fits v)
    (h : context.HasBytes addr (context.pointers [isa, superclass, 0, 0, data])) :
    Yields context (classRecord addr) ⟨⟨isa, []⟩, ⟨superclass, []⟩, data⟩ := by
  have hpointers := Yields.pointers (by simp) (by simpa using hfits) h
  exact hpointers.bind (pure _)

/-- The data of a class are read whatever the flags in its word are. -/
theorem Yields.dataOf {isa superclass : Image.Pointer} {data flags : UInt64} {value : ClassData}
    (hnear : context.Near data) (hmod : data.toNat % 8 = 0) (hflags : flags.toNat < 4)
    (h : Yields context (classData data) value) :
    Yields context (dataOf ⟨isa, superclass, data ||| flags⟩) value := by
  refine pointerSize.bind ?_
  -- every address of a draft is small enough to pass the mask
  have haddress : ClassDataWord.address (data ||| flags) context.image.is64 = data := by
    refine ClassDataWord.address_or hmod ?_ hflags
    obtain ⟨distance, hdistance, hdata⟩ := hnear
    rw [hdata, Context.base]
    split
    · change 0x100000000 + distance < 2 ^ 47
      omega
    · change 0x10000 + distance < 2 ^ 32
      omega
  have hwide : decide (context.image.pointerSize.toUInt64 = 8) = context.image.is64 := by
    rw [Image.pointerSize]
    cases context.image.is64 <;> decide
  rw [hwide, haddress]
  exact h

/-- A class is read, if its words, its data and its members are. -/
theorem Reads.readClass {c : DraftClass} {names : RecordNames} {isa word name
    instanceMethods classMethods protocols ivars properties metaName : UInt64}
    (hname : Yields context (text name) c.name)
    (hrecord : Yields context (classRecord addr) ⟨⟨isa, []⟩, ⟨c.superclass, []⟩, word⟩)
    (hlegacy : ClassDataWord.isSwiftLegacy word = false)
    (hstable : ClassDataWord.isSwiftStable word = c.isSwift)
    (hdata : Yields context (dataOf ⟨⟨isa, []⟩, ⟨c.superclass, []⟩, word⟩)
      ⟨c.flags, 0, name, instanceMethods, protocols, ivars, properties⟩)
    (hisa : isa ≠ 0)
    (hmeta : Yields context (do dataOf (← classRecord isa))
      ⟨c.flags ||| Drafting.metaFlag, 0, metaName, classMethods, 0, 0, 0⟩)
    (hsuperclass : c.superclass ≠ 0 →
      ClassNamed context c.superclass (names.ofClass c.superclass))
    (hinstance : Reads context (methods instanceMethods false)
      (c.instanceMethods.map (·.toMethod context.code false)))
    (hclass : Reads context (methods classMethods true)
      (c.classMethods.map (·.toMethod context.code true)))
    (hprotocols : Reads context (protocolNames protocols) (c.protocols.map names.ofProtocol))
    (hivars : Reads context (RecordReader.ivars ivars) (c.ivars.map (·.toIvar)))
    (hproperties : Reads context (RecordReader.properties properties)
      (c.properties.map (·.toProperty))) :
    Reads context (readClass addr) (c.toClass names context.code addr) := by
  have hnamed : ClassNamed context addr c.name := hrecord.bind (hdata.bind hname)
  have hroot : ClassFlags.isRoot c.flags = c.isRoot := by
    rw [DraftClass.flags]
    cases c.isRoot <;> decide
  have hisMeta : ClassFlags.isMeta (c.flags ||| Drafting.metaFlag) = true := by
    rw [DraftClass.flags]
    cases c.isRoot <;> decide
  refine (of_yields hrecord).bind ((of_yields hdata).annotating _ _ |>.bind ?_)
  refine ((of_yields hname).annotating _ _).bind ((keepClassName hnamed).bind ?_)
  refine ite_bind (a := if c.isRoot then [] else names.classAt c.superclass) ?_ ?_
  · rw [hroot]
    split
    · exact pure _
    · exact (classReference hsuperclass).annotating _ _
  refine (hinstance.annotating _ _).bind ((hprotocols.annotating _ _).bind ?_)
  refine (hivars.annotating _ _).bind ((hproperties.annotating _ _).bind ?_)
  have hthere : ¬ (decide (isa = 0) || !([] : Text).isEmpty) = true := by simp [hisa]
  dsimp only
  rw [if_neg hthere]
  refine ((of_yields hmeta).annotating _ _).bind ?_
  dsimp only
  rw [hisMeta, if_neg (by decide)]
  refine (hclass.annotating _ _).bind (((pure []).annotating _ _).bind ?_)
  rw [hlegacy, hstable]
  exact pure _

/-- The words of a protocol record are read, the last three of them since it is large enough. -/
theorem Yields.protocolRecord {name protocols instanceMethods classMethods optionalMethods
    properties extended : UInt64}
    (hfits : ∀ v ∈ [name, protocols, instanceMethods, classMethods, optionalMethods, properties],
      context.Fits v)
    (hextended : context.Fits extended)
    (h : context.HasBytes addr (context.pointers [0, name, protocols, instanceMethods, classMethods,
        optionalMethods, 0, properties] ++
      context.words [8 * context.image.pointerSize.toUInt32 + 8 +
        3 * context.image.pointerSize.toUInt32, 0] ++ context.pointers [extended, 0, 0])) :
    Yields context (protocolRecord addr) ⟨name, protocols, instanceMethods, classMethods,
      optionalMethods, 0, properties, extended, 0, 0⟩ := by
  have hwords := h.left.left
  have hsizes := h.left.right
  have htail := h.right
  rw [List.length_append, Context.length_pointers, Context.length_words] at htail
  rw [Context.length_pointers] at hsizes
  have hpointers := pointers (by simp) (by simpa using hfits) hwords
  -- all places are known, since pointers have one of two sizes
  obtain ⟨size, hsize, hcases⟩ : ∃ size, context.image.pointerSize = size ∧
      (size = 8 ∨ size = 4) := by
    refine ⟨_, rfl, ?_⟩
    rw [Image.pointerSize]
    cases context.image.is64 <;> simp
  refine hpointers.bind (pointerSize.bind ?_)
  rw [hsize] at hsizes htail ⊢
  have hrecordSize : Yields context (RecordReader.word32At (addr + 8 * size.toUInt64))
      (8 * size.toUInt32 + 8 + 3 * size.toUInt32) := by
    have hword := word32At (@Context.HasBytes.word _ _ [] _ _ hsizes)
    rcases hcases with rfl | rfl <;> simpa using hword
  have hflags : Yields context (RecordReader.word32At (addr + 8 * size.toUInt64 + 4)) 0 := by
    have hword := word32At (@Context.HasBytes.word _ _ [_] _ _ hsizes)
    rcases hcases with rfl | rfl <;> simpa using hword
  have hextra (index v : UInt64) (hindex : index = 0 ∨ index = 1 ∨ index = 2)
      (hv : context.Fits v)
      (h : context.HasBytes (addr + 8 * size.toUInt64 + 8 + index * size.toUInt64)
        (context.pointers [v])) :
      Yields context (if decide (8 * size.toUInt64 + 8 + (index + 1) * size.toUInt64 ≤
          (8 * size.toUInt32 + 8 + 3 * size.toUInt32).toUInt64) then do
        return (← RecordReader.pointerAt
          (addr + 8 * size.toUInt64 + 8 + index * size.toUInt64)).addr
        else Pure.pure 0) v := by
    have hpresent : decide (8 * size.toUInt64 + 8 + (index + 1) * size.toUInt64 ≤
        (8 * size.toUInt32 + 8 + 3 * size.toUInt32).toUInt64) = true := by
      rcases hcases with rfl | rfl <;> rcases hindex with rfl | rfl | rfl <;> decide
    rw [if_pos hpresent]
    exact (pointerAt hv h).bind (pure _)
  have hextra0 := hextra 0 extended (by simp) hextended (by
    have hplace := @Context.HasBytes.pointer _ _ [] _ _ htail
    rw [hsize] at hplace
    rcases hcases with rfl | rfl <;> simpa [UInt64.add_assoc] using hplace)
  have hextra1 := hextra 1 0 (by simp) context.fits_zero (by
    have hplace := @Context.HasBytes.pointer _ _ [_] _ _ htail
    rw [hsize] at hplace
    rcases hcases with rfl | rfl <;> simpa [UInt64.add_assoc] using hplace)
  have hextra2 := hextra 2 0 (by simp) context.fits_zero (by
    have hplace := @Context.HasBytes.pointer _ _ [_, _] _ _ htail
    rw [hsize] at hplace
    rcases hcases with rfl | rfl <;> simpa [UInt64.add_assoc] using hplace)
  refine hrecordSize.bind (hflags.bind ?_)
  exact hextra0.bind (hextra1.bind (hextra2.bind (pure _)))

/-- Drafted methods are read with their extended signatures. -/
theorem Reads.extendDraftMethods {ms : List DraftMethod} {types : List Text}
    (hlength : ms.length ≤ types.length) (code : UInt64) (isClassMethod : Bool) :
    Reads context (RecordReader.extendMethods (ms.map (·.toMethod code isClassMethod)) types)
      ((List.zipWith DraftMethod.extend ms types).map (·.toMethod code isClassMethod),
        types.drop ms.length) := by
  have hmethods := @extendMethods context (ms.map (·.toMethod code isClassMethod)) types
    (by rwa [List.length_map])
  simp only [List.zipWith_map_left, List.length_map] at hmethods
  simpa only [List.map_zipWith, DraftMethod.toMethod_extend] using hmethods

/-- The protocol as it is read without extended signatures. -/
def plainProtocol (p : DraftProtocol) (names : RecordNames) (code addr : UInt64) : Protocol where
  name := p.name
  protocols := p.protocols.map names.ofProtocol
  instanceMethods := p.instanceMethods.map (·.toMethod code false)
  classMethods := p.classMethods.map (·.toMethod code true)
  optionalInstanceMethods := p.optionalInstanceMethods.map (·.toMethod code false)
  properties := p.properties.map (·.toProperty)
  addr := addr

/-- The table of extended signatures has a text for every method. -/
def HasTypes (context : Context) (addr : UInt64) (types : List Text) : Prop :=
  ∃ addrs, context.HasBytes addr (context.pointers addrs) ∧
    List.Forall₂ (fun t a => context.HasBytes a (t ++ [0])) types addrs

/-- The extended signatures of a protocol are read. -/
theorem Reads.extendProtocol {p : DraftProtocol} (hp : p.NulFree) (hne : p.extendedTypes ≠ [])
    (hcount : p.extendedTypes.length = p.methodCount) (names : RecordNames) (code self : UInt64)
    (h : HasTypes context addr p.extendedTypes) :
    Reads context (extendProtocol addr (plainProtocol p names code self))
      (p.toProtocol names code self) := by
  obtain ⟨addrs, haddrs, htypes⟩ := h
  have htotal : (plainProtocol p names code self).instanceMethods.length +
      (plainProtocol p names code self).classMethods.length +
      (plainProtocol p names code self).optionalInstanceMethods.length +
      (plainProtocol p names code self).optionalClassMethods.length = addrs.length := by
    rw [← htypes.length_eq, hcount, DraftProtocol.methodCount]
    simp [plainProtocol]
  have haddrsNe : addrs ≠ [] := by
    rintro rfl
    exact hne (List.forall₂_nil_right_iff.1 htypes)
  rw [RecordReader.extendProtocol]
  dsimp only
  rw [htotal, if_neg (by simpa using haddrsNe)]
  have hwords := Yields.pointers haddrsNe
    (forall_mem_right htypes fun _ _ h => h.near.fits) haddrs
  have htexts : Reads context
      ((addrs.map fun a => Image.Pointer.mk a []).mapM fun word => text word.addr)
      p.extendedTypes := by
    refine mapM (List.forall₂_map_left_iff.2 ?_)
    refine List.Forall₂.flip ?_
    have hboth := (List.forall₂_and_left _ _).2 ⟨hp.extendedTypes, htypes⟩
    exact hboth.imp fun t a h => of_yields (Yields.text h.1 h.2)
  rw [DraftProtocol.methodCount] at hcount
  -- the three lists of methods share the table, each starting where the one before ends
  have hinstance :=
    @extendDraftMethods context p.instanceMethods p.extendedTypes (by omega) code false
  have hclass := @extendDraftMethods context p.classMethods
    (p.extendedTypes.drop p.instanceMethods.length) (by rw [List.length_drop]; omega) code true
  have hoptional := @extendDraftMethods context p.optionalInstanceMethods
    ((p.extendedTypes.drop p.instanceMethods.length).drop p.classMethods.length)
    (by rw [List.length_drop, List.length_drop]; omega) code false
  have hprotocol : p.toProtocol names code self = { plainProtocol p names code self with
      instanceMethods := (List.zipWith DraftMethod.extend p.instanceMethods
        p.extendedTypes).map (·.toMethod code false)
      classMethods := (List.zipWith DraftMethod.extend p.classMethods
        (p.extendedTypes.drop p.instanceMethods.length)).map (·.toMethod code true)
      optionalInstanceMethods := (List.zipWith DraftMethod.extend p.optionalInstanceMethods
        ((p.extendedTypes.drop p.instanceMethods.length).drop p.classMethods.length)).map
          (·.toMethod code false) } := by
    simp [DraftProtocol.toProtocol, DraftProtocol.extended, plainProtocol, hne, List.drop_drop]
  rw [hprotocol]
  refine (of_yields hwords).bind (htexts.bind (hinstance.bind (hclass.bind (hoptional.bind ?_))))
  exact (pure _).bind (pure _)

/-- A protocol is read, if its record and its members are. -/
theorem Reads.readProtocol {p : DraftProtocol} {names : RecordNames} {name instanceMethods
    classMethods optionalMethods protocols properties extended : UInt64} (hp : p.NulFree)
    (hrecord : Yields context (protocolRecord addr) ⟨name, protocols, instanceMethods, classMethods,
      optionalMethods, 0, properties, extended, 0, 0⟩)
    (hname : Yields context (text name) p.name)
    (hnamed : ProtocolNamed context addr p.name)
    (hprotocols : Reads context (protocolNames protocols) (p.protocols.map names.ofProtocol))
    (hinstance : Reads context (methods instanceMethods false)
      (p.instanceMethods.map (·.toMethod context.code false)))
    (hclass : Reads context (methods classMethods true)
      (p.classMethods.map (·.toMethod context.code true)))
    (hoptional : Reads context (methods optionalMethods false)
      (p.optionalInstanceMethods.map (·.toMethod context.code false)))
    (hproperties : Reads context (RecordReader.properties properties)
      (p.properties.map (·.toProperty)))
    (hextended : if p.extendedTypes = [] then extended = 0
      else context.Near extended ∧ HasTypes context extended p.extendedTypes)
    (hcount : p.extendedTypes = [] ∨ p.extendedTypes.length = p.methodCount) :
    Reads context (readProtocol addr) (p.toProtocol names context.code addr) := by
  refine (of_yields hrecord).bind (((of_yields hname).annotating _ _).bind ?_)
  refine (keepProtocolName hnamed).bind ((hprotocols.annotating _ _).bind ?_)
  refine (hinstance.annotating _ _).bind ((hclass.annotating _ _).bind ?_)
  refine (hoptional.annotating _ _).bind (((pure []).annotating _ _).bind ?_)
  refine (hproperties.annotating _ _).bind (((pure []).annotating _ _).bind ?_)
  refine (((of_yields Yields.text_zero)).annotating _ _).bind ?_
  dsimp only
  by_cases hempty : p.extendedTypes = []
  · rw [if_pos hempty] at hextended
    have hprotocol : p.toProtocol names context.code addr =
        plainProtocol p names context.code addr := by
      simp [DraftProtocol.toProtocol, DraftProtocol.extended, plainProtocol, hempty]
    rw [if_pos hextended, hprotocol]
    exact pure _
  · rw [if_neg hempty] at hextended
    rw [if_neg hextended.1.ne_zero]
    exact (extendProtocol hp hempty (hcount.resolve_left hempty) names context.code addr
      hextended.2).tryCatch _

end RecordReader

namespace Drafting

open RecordReader

/-- Writes the table of the extended signatures of a protocol and returns its address. -/
private def extendedTable (p : DraftProtocol) : Drafting UInt64 := do
  if p.extendedTypes.isEmpty then return 0
  else
    let addrs ← p.extendedTypes.mapM cstring
    record (← pointers addrs)

/-- Writes a protocol whose extended signatures are at an address. -/
private def addExtended (p : DraftProtocol) (extended : UInt64) : Drafting UInt64 := do
  let name ← cstring p.name
  let protocols ← protocolList p.protocols
  let instanceMethods ← methodList .addresses p.instanceMethods
  let classMethods ← methodList .addresses p.classMethods
  let optionalMethods ← methodList .addresses p.optionalInstanceMethods
  let properties ← propertyList p.properties
  let size := (← get).pointerSize.toUInt32
  let head ← pointers
    [0, name, protocols, instanceMethods, classMethods, optionalMethods, 0, properties]
  let sizes ← words [8 * size + 8 + 3 * size, 0]
  let tail ← pointers [extended, 0, 0]
  align "__DATA" "__objc_data" 8
  let addr ← append "__DATA" "__objc_data" (head ++ sizes ++ tail)
  let _ ← append "__DATA_CONST" "__objc_protolist" (← pointers [addr])
  return addr

/-- The extended signatures of a protocol are written before everything else. -/
private theorem addProtocol_eq (p : DraftProtocol) :
    addProtocol p = extendedTable p >>= addExtended p := by
  rw [addProtocol, extendedTable]
  split
  · rfl
  · simp only [bind_assoc]
    rfl

namespace Writes

/-- The data of a class are read back. -/
theorem classData (flags : UInt32) (name : Text) (methods protocols ivars properties : UInt64) :
    Writes (classData flags name methods protocols ivars properties) fun addr context =>
      (context.Near addr ∧ addr.toNat % 8 = 0) ∧
        ∃ nameAddr, context.HasBytes nameAddr (name ++ [0]) ∧
          ((∀ v ∈ [methods, protocols, ivars, properties], context.Fits v) →
            Yields context (RecordReader.classData addr)
              ⟨flags, 0, nameAddr, methods, protocols, ivars, properties⟩) := by
  refine get.bind fun d => (words _).bind fun head => (cstring name).bind fun nameAddr =>
    (pointers _).bind fun tail => (record _).imp ?_
  rintro addr context ⟨h, hmod⟩ rfl hname rfl hwide
  refine ⟨⟨h.near, hmod⟩, nameAddr, hname, fun hfits => ?_⟩
  have hpointers {start : UInt64} (hstart : context.HasBytes start (context.pointers
      [0, nameAddr, methods, protocols, ivars, 0, properties])) :=
    Yields.pointers (by simp) (by simpa [hname.near.fits] using hfits) hstart
  rw [← hwide] at h
  -- the pointers start at a multiple of eight where they are that wide
  have hdata (more : List UInt32) (start : UInt64)
      (h : context.HasBytes addr (context.words (flags :: 0 :: 0 :: more)))
      (hsize : (if context.image.pointerSize.toUInt64 = 8 then addr + 16 else addr + 12) = start)
      (hstart : context.HasBytes start (context.pointers
        [0, nameAddr, methods, protocols, ivars, 0, properties])) :
      Yields context (RecordReader.classData addr)
        ⟨flags, 0, nameAddr, methods, protocols, ivars, properties⟩ := by
    have hflags := @Context.HasBytes.word _ _ [] _ _ h
    rw [show addr + (4 * ([] : List UInt32).length).toUInt64 = addr from UInt64.add_zero _]
      at hflags
    refine (Yields.word32At hflags).bind ?_
    refine (Yields.word32At (@Context.HasBytes.word _ _ [flags] _ 0 h)).bind ?_
    refine (Yields.word32At (@Context.HasBytes.word _ _ [flags, 0] _ 0 h)).bind ?_
    refine Yields.pointerSize.bind ?_
    dsimp only
    rw [hsize]
    exact (hpointers hstart).bind (Yields.pure _)
  cases hwide : context.image.is64 with
  | true =>
    simp only [hwide, if_true] at h
    have hsize : context.image.pointerSize.toUInt64 = 8 := by
      rw [Image.pointerSize, hwide, if_pos rfl]
      rfl
    have hstart := h.right
    rw [Context.length_words] at hstart
    exact hdata [0] (addr + 16) h.left (if_pos hsize) hstart
  | false =>
    simp only [hwide, Bool.false_eq_true, if_false] at h
    have hsize : context.image.pointerSize.toUInt64 ≠ 8 := by
      rw [Image.pointerSize, hwide, if_neg (by decide)]
      decide
    have hstart := h.right
    rw [Context.length_words] at hstart
    exact hdata [] (addr + 12) h.left (if_neg hsize) hstart

/-- The table of extended signatures is found again. -/
private theorem extendedTable (p : DraftProtocol) :
    Writes (extendedTable p) fun extended context => context.Fits extended ∧
      if p.extendedTypes = [] then extended = 0
      else context.Near extended ∧ HasTypes context extended p.extendedTypes := by
  rw [Drafting.extendedTable]
  by_cases hempty : p.extendedTypes = []
  · rw [hempty]
    exact pure fun context => ⟨context.fits_zero, rfl⟩
  · simp only [if_neg hempty]
    rw [if_neg (by simpa using hempty)]
    refine (mapM _ fun t _ => cstring t).bind fun addrs => (pointers addrs).bind fun bytes => ?_
    refine (record bytes).imp ?_
    rintro extended context ⟨h, -⟩ rfl haddrs
    exact ⟨h.near.fits, h.near, addrs, h, haddrs⟩

end Writes

namespace Adds

/-- A class is read back, and so is its name. -/
theorem addClass {c : DraftClass} (hc : c.NulFree) (hlayout : c.layout ≠ .unmarkedDistances) :
    Adds (addClass c) 4 (!c.isUnlisted) fun addr context =>
      context.Near addr ∧ ((c.superclass ≠ 0 → context.Near c.superclass) →
        ClassNamed context addr c.name ∧ ∀ names : RecordNames,
          (c.superclass ≠ 0 → ClassNamed context c.superclass (names.ofClass c.superclass)) →
          (∀ a ∈ c.protocols, IsProtocol context a (names.ofProtocol a)) →
            Reads context (readClass addr) (c.toClass names context.code addr)) := by
  refine Adds.bind (Writes.methodList hlayout hc.classMethods) fun classMethods => ?_
  refine Adds.bind (Writes.classData _ _ _ _ _ _) fun metaData => ?_
  refine Adds.bind (Writes.methodList hlayout hc.instanceMethods) fun instanceMethods => ?_
  refine Adds.bind Writes.protocolList fun protocols => ?_
  refine Adds.bind (Writes.ivarList hc.ivars) fun ivars => ?_
  refine Adds.bind (Writes.propertyList hc.properties) fun properties => ?_
  refine Adds.bind (Writes.classData _ _ _ _ _ _) fun data => ?_
  refine Adds.bind (Writes.align Draft.slotOf?_data (by decide)) fun _ => ?_
  refine Adds.bind (Writes.pointers _) fun isaBytes => ?_
  refine Adds.bind (Writes.append Draft.slotOf?_data (by decide) isaBytes) fun isa => ?_
  refine Adds.bind (Writes.pointers _) fun bytes => ?_
  refine Adds.bind (Writes.append Draft.slotOf?_data (by decide) bytes) fun addr => ?_
  refine Adds.list Draft.slotOf?_classlist (by decide) _ ?_
  rintro context h rfl hisa rfl - ⟨⟨hnear, hmod⟩, name, hname, hdata⟩ ⟨hpropertiesFits, hproperties⟩
    ⟨hivarsFits, hivars⟩ ⟨hprotocolsFits, hprotocols⟩ ⟨hinstanceFits, hinstance⟩
    ⟨⟨hmetaNear, hmetaMod⟩, metaName, -, hmeta⟩ ⟨hclassFits, hclass⟩
  refine ⟨h.near, fun hsuper => ?_⟩
  have hsuperFits : context.Fits c.superclass := by
    by_cases hzero : c.superclass = 0
    · rw [hzero]
      exact context.fits_zero
    · exact (hsuper hzero).fits
  -- the word of the class is the address of its data with a flag
  obtain ⟨flag, hword, hflag, hlegacy, hstable⟩ : ∃ flag : UInt64,
      (if c.isSwift then data ||| 2 else data) = data ||| flag ∧ flag.toNat < 4 ∧
        decide (flag &&& 1 ≠ 0) = false ∧ decide (flag &&& 2 ≠ 0) = c.isSwift := by
    cases c.isSwift with
    | true => exact ⟨2, rfl, by decide, by decide, by decide⟩
    | false => exact ⟨0, UInt64.or_zero.symm, by decide, by decide, by decide⟩
  rw [hword] at h
  have hwordFits : context.Fits (data ||| flag) := by
    intro hwide
    rw [UInt64.toNat_or]
    exact Nat.or_lt_two_pow (hnear.fits hwide) (by omega)
  have hrecord := Yields.classRecord
    (by simpa using ⟨hisa.near.fits, hsuperFits, hwordFits⟩) h
  have hdata : Yields context (dataOf ⟨⟨isa, []⟩, ⟨c.superclass, []⟩, data ||| flag⟩) _ :=
    Yields.dataOf hnear hmod hflag
      (hdata (by simpa using ⟨hinstanceFits, hprotocolsFits, hivarsFits, hpropertiesFits⟩))
  have hmetaRecord := Yields.classRecord (by simpa using hmetaNear.fits) hisa
  have hmetaData : Yields context (dataOf ⟨⟨0, []⟩, ⟨0, []⟩, metaData ||| 0⟩) _ :=
    Yields.dataOf hmetaNear hmetaMod (by decide) (hmeta (by simpa using hclassFits))
  rw [UInt64.or_zero] at hmetaData
  have htext := Yields.text hc.name hname
  refine ⟨hrecord.bind (hdata.bind htext), fun names hsuperNamed hprotocolsNamed => ?_⟩
  refine Reads.readClass htext hrecord ?_ ?_ hdata hisa.near.ne_zero (hmetaRecord.bind hmetaData)
    hsuperNamed (hinstance false) (hclass true)
    (hprotocols _ fun a ha => ⟨(hprotocolsNamed a ha).1.fits, (hprotocolsNamed a ha).2⟩) hivars
    hproperties
  · rw [ClassDataWord.isSwiftLegacy, ClassDataWord.or_and hmod (by decide)]
    exact hlegacy
  · rw [ClassDataWord.isSwiftStable, ClassDataWord.or_and hmod (by decide)]
    exact hstable

/-- A category is read back. -/
theorem addCategory {c : DraftCategory} (hc : c.NulFree) :
    Adds (addCategory c) 5 true fun addr context =>
      context.Near addr ∧ ∀ names : RecordNames,
        (c.classAddr ≠ 0 → context.Near c.classAddr ∧
          ClassNamed context c.classAddr (names.ofClass c.classAddr)) →
        (∀ a ∈ c.protocols, IsProtocol context a (names.ofProtocol a)) →
          Reads context (readCategory addr) (c.toCategory names context.code addr) := by
  -- each write keeps what the writes before it have promised
  refine Adds.bind (Writes.cstring c.name) fun name => ?_
  refine Adds.bind (Writes.methodList (by decide) hc.instanceMethods) fun instanceMethods => ?_
  refine Adds.bind (Writes.methodList (by decide) hc.classMethods) fun classMethods => ?_
  refine Adds.bind Writes.protocolList fun protocols => ?_
  refine Adds.bind (Writes.propertyList hc.properties) fun properties => ?_
  refine Adds.bind (Writes.pointers _) fun bytes => ?_
  refine Adds.bind (Writes.record bytes) fun addr => ?_
  refine Adds.list Draft.slotOf?_catlist (by decide) true ?_
  rintro context ⟨h, -⟩ rfl ⟨hpropertiesFits, hproperties⟩ ⟨hprotocolsFits, hprotocols⟩
    ⟨hclassFits, hclass⟩ ⟨hinstanceFits, hinstance⟩ hname
  refine ⟨h.near, fun names hclassAddr hprotocolsNamed => ?_⟩
  have hclassAddrFits : context.Fits c.classAddr := by
    by_cases hzero : c.classAddr = 0
    · rw [hzero]
      exact context.fits_zero
    · exact (hclassAddr hzero).1.fits
  -- from here on the record is read, field by field
  have hwords := Yields.pointers (by simp) (by
    simpa using ⟨hname.near.fits, hclassAddrFits, hinstanceFits, hclassFits, hprotocolsFits,
      hpropertiesFits⟩) h
  obtain ⟨d, hshows, -⟩ := h
  refine Reads.read_bind ?_
  rw [hshows.categoryClassProperties_eq]
  refine (Reads.of_yields hwords).bind ?_
  refine ((Reads.of_yields (Yields.text hc.name hname)).annotating _ _).bind ?_
  refine ((Reads.classReference fun hne => (hclassAddr hne).2).annotating _ _).bind ?_
  refine ((hinstance false).annotating _ _).bind (((hclass true).annotating _ _).bind ?_)
  refine ((hprotocols _ fun a ha => ⟨(hprotocolsNamed a ha).1.fits,
    (hprotocolsNamed a ha).2⟩).annotating _ _).bind ((hproperties.annotating _ _).bind ?_)
  exact ((Reads.pure []).annotating _ _).bind (Reads.pure _)

/-- A protocol is read back, and so is its name. -/
theorem addProtocol {p : DraftProtocol} (hp : p.NulFree)
    (hcount : p.extendedTypes = [] ∨ p.extendedTypes.length = p.methodCount) :
    Adds (addProtocol p) 6 true fun addr context =>
      IsProtocol context addr p.name ∧ ∀ names : RecordNames,
        (∀ a ∈ p.protocols, IsProtocol context a (names.ofProtocol a)) →
          Reads context (readProtocol addr) (p.toProtocol names context.code addr) := by
  rw [addProtocol_eq]
  -- each write keeps what the writes before it have promised
  refine Adds.bind (Writes.extendedTable p) fun extended => ?_
  refine Adds.bind (Writes.cstring p.name) fun name => ?_
  refine Adds.bind Writes.protocolList fun protocols => ?_
  refine Adds.bind (Writes.methodList (by decide) hp.instanceMethods) fun instanceMethods => ?_
  refine Adds.bind (Writes.methodList (by decide) hp.classMethods) fun classMethods => ?_
  refine Adds.bind (Writes.methodList (by decide) hp.optionalInstanceMethods)
    fun optionalMethods => ?_
  refine Adds.bind (Writes.propertyList hp.properties) fun properties => ?_
  refine Adds.bind Writes.get fun d => ?_
  refine Adds.bind (Writes.pointers _) fun head => ?_
  refine Adds.bind (Writes.words _) fun sizes => ?_
  refine Adds.bind (Writes.pointers _) fun tail => ?_
  refine Adds.bind (Writes.align Draft.slotOf?_data (by decide)) fun _ => ?_
  refine Adds.bind (Writes.append Draft.slotOf?_data (by decide) _) fun addr => ?_
  refine Adds.list Draft.slotOf?_protolist (by decide) true ?_
  rintro context h - rfl rfl rfl hwide ⟨hpropertiesFits, hproperties⟩ ⟨hoptionalFits, hoptional⟩
    ⟨hclassFits, hclass⟩ ⟨hinstanceFits, hinstance⟩ ⟨hprotocolsFits, hprotocols⟩ hname
    ⟨hextendedFits, hextended⟩
  rw [Draft.pointerSize_eq hwide] at h
  -- from here on the record is read, field by field
  have hrecord := Yields.protocolRecord (by
    simpa using ⟨hname.near.fits, hprotocolsFits, hinstanceFits, hclassFits, hoptionalFits,
      hpropertiesFits⟩) hextendedFits h
  have htext := Yields.text hp.name hname
  have hnamed : ProtocolNamed context addr p.name := by
    have hplace := @Context.HasBytes.pointer _ _ [_] _ _ h.left.left
    rw [List.length_singleton, Nat.mul_one] at hplace
    exact Yields.pointerSize.bind ((Yields.pointerAt hname.near.fits hplace).bind htext)
  refine ⟨⟨h.near, hnamed⟩, fun names hprotocolsNamed => ?_⟩
  exact Reads.readProtocol hp hrecord htext hnamed
    (hprotocols _ fun a ha => ⟨(hprotocolsNamed a ha).1.fits, (hprotocolsNamed a ha).2⟩)
    (hinstance false) (hclass true) (hoptional false) hproperties hextended hcount

end Adds

end Drafting

end ObjcLens
