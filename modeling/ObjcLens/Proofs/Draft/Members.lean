import Mathlib
import ObjcLens.Proofs.Draft.Writes
import ObjcLens.Proofs.ObjcType.Comma

/-!
# Members are read as they were written

The lists of methods, instance variables, properties and protocols of a drafted record are read
back entry by entry. Whatever the layout of a list of methods is, the same methods are read.

## Main results

* `Writes.methodList`: methods are read back from each layout.
* `Writes.ivarList`, `Writes.propertyList`, `Writes.protocolList`: the other lists.
-/

namespace ObjcLens

/-- The method as it is read, with the address of its code. -/
def DraftMethod.toMethod (m : DraftMethod) (code : UInt64) (isClassMethod : Bool) : Method :=
  ⟨m.name, m.types, some (MethodType.decode m.types), isClassMethod, code⟩

/-- The instance variable as it is read. -/
def DraftIvar.toIvar (v : DraftIvar) : Ivar where
  name := v.name
  encoding := v.type
  type := some (ObjcType.parse v.type)
  offset := v.offset
  size := v.size
  alignment := 4

/-- The property as it is read. -/
def DraftProperty.toProperty (p : DraftProperty) : Property :=
  ⟨p.name, p.attributes, PropertyAttributes.parse p.attributes⟩

/-- The texts of the method have no zero bytes. -/
def DraftMethod.NulFree (m : DraftMethod) : Prop := 0 ∉ m.name ∧ 0 ∉ m.types

/-- The texts of the instance variable have no zero bytes. -/
def DraftIvar.NulFree (v : DraftIvar) : Prop := 0 ∉ v.name ∧ 0 ∉ v.type

/-- The texts of the property have no zero bytes. -/
def DraftProperty.NulFree (p : DraftProperty) : Prop := 0 ∉ p.name ∧ 0 ∉ p.attributes

instance (m : DraftMethod) : Decidable m.NulFree := inferInstanceAs (Decidable (_ ∧ _))

instance (v : DraftIvar) : Decidable v.NulFree := inferInstanceAs (Decidable (_ ∧ _))

instance (p : DraftProperty) : Decidable p.NulFree := inferInstanceAs (Decidable (_ ∧ _))

/-- The signed number behind a 32-bit number. -/
private theorem signed32_eq (n : UInt32) :
    signed32 n = if n.toNat < 2 ^ 31 then (n.toNat : Int) else n.toNat - 2 ^ 32 := by
  have hbits : n.toBitVec.toNat = n.toNat := rfl
  rw [signed32, Int32.toInt, UInt32.toBitVec_toInt32, BitVec.toInt_eq_toNat_cond, hbits]
  split <;> split <;> omega

namespace RecordReader

open Drafting

variable {context : Context} {addr : UInt64}

/-- A distance between two places of the image leads from one to the other. -/
theorem move_distance {target place : UInt64} (htarget : context.Near target)
    (hplace : context.Near place) : move place (distance target place) = target := by
  obtain ⟨i, hi, htarget⟩ := htarget
  obtain ⟨j, hj, hplace⟩ := hplace
  have hbase : context.base.toNat ≤ 0x100000000 := by
    rw [Context.base]
    split <;> decide
  have hdistance : (distance target place).toNat = (2 ^ 32 + i - j) % 2 ^ 32 := by
    rw [distance, UInt64.toNat_toUInt32, UInt64.toNat_sub, htarget, hplace]
    omega
  -- both distances are small, so that the sign survives the reduction to 32 bits
  have hwrap : (wrap64 (signed32 (distance target place))).toNat = (2 ^ 64 + i - j) % 2 ^ 64 := by
    rw [signed32_eq, hdistance, wrap64, UInt64.ofInt]
    change (Int.toNat _) % 2 ^ 64 = _
    split <;> omega
  apply UInt64.toNat_inj.1
  rw [move, UInt64.toNat_add, hwrap, htarget, hplace]
  omega

/-- A method is read from its three addresses. -/
theorem Reads.bigMethod {m : DraftMethod} (hm : m.NulFree) {name types code : UInt64}
    (hname : context.HasBytes name (m.name ++ [0]))
    (htypes : context.HasBytes types (m.types ++ [0])) (hcode : context.Fits code)
    (h : context.HasBytes addr (context.pointers [name, types, code])) (isClassMethod : Bool) :
    Reads context (bigMethod isClassMethod addr) (m.toMethod code isClassMethod) := by
  have hpointers := Yields.pointers (by simp)
    (by simp [hname.near.fits, htypes.near.fits, hcode]) h
  refine (of_yields hpointers).bind ?_
  refine (of_yields (Yields.text hm.1 hname)).bind ((of_yields (Yields.text hm.2 htypes)).bind ?_)
  exact (decodeMethod m.types).bind (pure _)

/-- A method is read from its three distances, if the first one leads to its name. -/
theorem Reads.smallMethod {m : DraftMethod} (hm : m.NulFree) {a b c : UInt32} {direct : Bool}
    (hname : ∃ name, context.HasBytes name (m.name ++ [0]) ∧
      if direct then move addr a = name
      else context.HasBytes (move addr a) (context.pointers [name]))
    (htypes : context.HasBytes (move (addr + 4) b) (m.types ++ [0])) (hcode : c ≠ 0)
    (h : context.HasBytes addr (context.words [a, b, c])) (isClassMethod : Bool) :
    Reads context (smallMethod isClassMethod direct addr)
      (m.toMethod (move (addr + 8) c) isClassMethod) := by
  have hread := Yields.readAddr (List.ne_nil_of_length_pos (by simp)) h
  rw [Context.length_words] at hread
  have hfirst : context.image.order.word32 ((context.words [a, b, c]).drop 0) = a := by
    simp [Context.words]
  have hsecond : context.image.order.word32 ((context.words [a, b, c]).drop 4) = b := by
    simp [Context.words]
  have hthird : context.image.order.word32 ((context.words [a, b, c]).drop 8) = c := by
    simp [Context.words, List.drop_append, List.drop_eq_nil_of_le]
  refine read_bind ((of_yields (Yields.ofExcept hread)).bind ?_)
  simp only [hfirst, hsecond, hthird, if_neg hcode]
  obtain ⟨name, hname, hlead⟩ := hname
  -- however the name is found, what follows is the same
  have hmethod : Reads context (do
      let name ← text name
      let types ← text (move (addr + 4) b)
      return ⟨name, types, some (← RecordReader.decodeMethod types), isClassMethod,
        move (addr + 8) c⟩) (m.toMethod (move (addr + 8) c) isClassMethod) :=
    (of_yields (Yields.text hm.1 hname)).bind
      ((of_yields (Yields.text hm.2 htypes)).bind ((decodeMethod m.types).bind (pure _)))
  cases direct with
  | true =>
    simp only [if_true] at hlead ⊢
    rw [hlead]
    exact (pure name).bind hmethod
  | false =>
    simp only [Bool.false_eq_true, if_false] at hlead ⊢
    exact (of_yields (Yields.pointerAt hname.near.fits hlead)).bind ((pure name).bind hmethod)

/-- The targets lead to the texts of a method: that of the name at once, or by way of a
reference. -/
def Leads (context : Context) (direct : Bool) (m : DraftMethod) (targets : UInt64 × UInt64) :
    Prop :=
  (∃ name, context.HasBytes name (m.name ++ [0]) ∧
    if direct then targets.1 = name else context.HasBytes targets.1 (context.pointers [name])) ∧
  context.HasBytes targets.2 (m.types ++ [0])

/-- What a method leads to is near the base of the image. -/
theorem Leads.near {direct : Bool} {m : DraftMethod} {targets : UInt64 × UInt64}
    (h : Leads context direct m targets) : context.Near targets.1 ∧ context.Near targets.2 := by
  obtain ⟨⟨name, hname, hlead⟩, htypes⟩ := h
  refine ⟨?_, htypes.near⟩
  cases direct with
  | true =>
    simp only [if_true] at hlead
    rw [hlead]
    exact hname.near
  | false =>
    simp only [Bool.false_eq_true, if_false] at hlead
    exact hlead.near

/-- The entry of a method with three distances from an address on. -/
def distanceBytes (context : Context) (addr : UInt64) (targets : UInt64 × UInt64) : Text :=
  context.words [distance targets.1 addr, distance targets.2 (addr + 4),
    distance context.code (addr + 8)]

/-- An entry of a small list has three words. -/
theorem length_distanceBytes (context : Context) (addr : UInt64) (targets : UInt64 × UInt64) :
    (distanceBytes context addr targets).length = 12 :=
  context.length_words _

/-- The entries of methods with distances, one behind the other from an address on. -/
def distanceList (context : Context) : UInt64 → List (UInt64 × UInt64) → List Text
  | _, [] => []
  | addr, targets :: rest => distanceBytes context addr targets ::
      distanceList context (addr + 12) rest

/-- There is one entry for each method, and every entry has three words. -/
theorem length_distanceList (context : Context) (addr : UInt64)
    (targets : List (UInt64 × UInt64)) :
    (distanceList context addr targets).length = targets.length ∧
      ∀ bytes ∈ distanceList context addr targets, bytes.length = 12 := by
  induction targets generalizing addr with
  | nil => simp [distanceList]
  | cons first rest ih =>
    obtain ⟨hlength, hsizes⟩ := ih (addr + 12)
    refine ⟨?_, List.forall_mem_cons.2 ⟨length_distanceBytes context addr first, hsizes⟩⟩
    rw [distanceList, List.length_cons, List.length_cons, hlength]

/-- Addresses in the image do not wrap around. -/
private theorem toNat_add_of_near {count : UInt64} (hcount : count.toNat ≤ 12)
    (h : context.Near addr) : (addr + count).toNat = addr.toNat + count.toNat := by
  obtain ⟨distance, hdistance, haddr⟩ := h
  have hbase : context.base.toNat ≤ 0x100000000 := by
    rw [Context.base]
    split <;> decide
  rw [UInt64.toNat_add]
  omega

/-- A method is read from the entry of its distances, behind the code. -/
theorem Reads.smallMethod_distanceBytes {m : DraftMethod} (hm : m.NulFree) {direct : Bool}
    {targets : UInt64 × UInt64} (htargets : Leads context direct m targets)
    (hcode : context.code.toNat < addr.toNat)
    (h : context.HasBytes addr (distanceBytes context addr targets)) (isClassMethod : Bool) :
    Reads context (RecordReader.smallMethod isClassMethod direct addr)
      (m.toMethod context.code isClassMethod) := by
  have hnear := htargets.near
  -- the three distances stand in one entry, and each is counted from its own place
  have hplace (count : Nat) (hcount : count ≤ 12) : context.Near (addr + count.toUInt64) := by
    have hsplit := List.take_append_drop count (distanceBytes context addr targets)
    rw [← hsplit] at h
    have hright := h.right.near
    rwa [List.length_take_of_le (by rwa [length_distanceBytes])] at hright
  have hnear8 : context.Near (addr + 8) := hplace 8 (by decide)
  have hfirst : move addr (distance targets.1 addr) = targets.1 := move_distance hnear.1 h.near
  have hsecond : move (addr + 4) (distance targets.2 (addr + 4)) = targets.2 :=
    move_distance hnear.2 (hplace 4 (by decide))
  have hthird : move (addr + 8) (distance context.code (addr + 8)) = context.code :=
    move_distance context.near_code hnear8
  -- the code is in front of the entry, so the distance to it is not zero
  have hne : distance context.code (addr + 8) ≠ 0 := by
    intro hzero
    have hlast := toNat_add_of_near (show UInt64.toNat 8 ≤ 12 by decide) h.near
    rw [hzero] at hthird
    have hsame : addr + 8 = context.code := (UInt64.add_zero _).symm.trans hthird
    rw [hsame] at hlast
    omega
  have hmethod := Reads.smallMethod hm (by rw [hfirst]; exact htargets.1)
    (by rw [hsecond]; exact htargets.2) hne h isClassMethod
  rwa [hthird] at hmethod

/-- Methods are read from the entries of their distances. -/
theorem Reads.entriesFrom_distanceList {ms : List DraftMethod} (hms : ∀ m ∈ ms, m.NulFree)
    {direct : Bool} {targets : List (UInt64 × UInt64)}
    (htargets : List.Forall₂ (Leads context direct) ms targets)
    (hcode : context.code.toNat < addr.toNat)
    (h : context.HasBytes addr (distanceList context addr targets).flatten)
    (isClassMethod : Bool) :
    Reads context
      (RecordReader.entriesFrom (RecordReader.smallMethod isClassMethod direct) 12 ms.length addr)
      (ms.map (·.toMethod context.code isClassMethod)) := by
  induction htargets generalizing addr with
  | nil => exact pure _
  | cons hfirst _ ih =>
    rw [List.forall_mem_cons] at hms
    rw [distanceList, List.flatten_cons] at h
    have hnext := toNat_add_of_near (show UInt64.toNat 12 ≤ 12 by decide) h.near
    have hrest := h.right
    rw [length_distanceBytes] at hrest
    -- the code is in front of the next entry too
    have hlast : context.code.toNat < (addr + 12).toNat := by omega
    exact (smallMethod_distanceBytes hms.1 hfirst hcode h.left isClassMethod).bind
      ((ih hms.2 hlast hrest).bind (pure _))

/-- An instance variable is read from its offset, its texts and its size. -/
theorem Reads.ivar {v : DraftIvar} (hv : v.NulFree) {offset name type : UInt64}
    (hoffset : context.HasBytes offset (context.words [v.offset, 0]))
    (hname : context.HasBytes name (v.name ++ [0]))
    (htype : context.HasBytes type (v.type ++ [0]))
    (h : context.HasBytes addr (context.pointers [offset, name, type] ++
      context.words [2, v.size])) : Reads context (ivar addr) v.toIvar := by
  have hpointers := Yields.pointers (by simp)
    (by simp [hoffset.near.fits, hname.near.fits, htype.near.fits]) h.left
  have hnumbers := h.right
  have hlength : (context.pointers [offset, name, type]).length.toUInt64 =
      3 * context.image.pointerSize.toUInt64 := by
    rw [Context.length_pointers]
    change UInt64.ofNat (context.image.pointerSize * 3) = _
    rw [UInt64.ofNat_mul, UInt64.mul_comm]
    rfl
  rw [hlength, Context.words_cons] at hnumbers
  have hsize := hnumbers.right
  rw [Context.length_words] at hsize
  rw [Context.words_cons] at hoffset
  refine (of_yields hpointers).bind ((of_yields Yields.pointerSize).bind ?_)
  refine (of_yields (Yields.word32At hnumbers.left)).bind ?_
  refine (of_yields (Yields.word32At hsize)).bind ?_
  have hrest : Reads context (do
      let name ← text name
      let encoding ← text type
      return {
        name, encoding
        offset := v.offset
        type := some (← RecordReader.decodeType encoding)
        size := v.size
        alignment := ivarAlignment 2 context.image.pointerSize.toUInt64.toUInt32 }) v.toIvar :=
    (of_yields (Yields.text hv.1 hname)).bind
      ((of_yields (Yields.text hv.2 htype)).bind ((decodeType v.type).bind (pure _)))
  change Reads context (if offset = 0 then _ else _) _
  rw [if_neg hoffset.near.ne_zero]
  exact (of_yields (Yields.word32At hoffset.left)).bind hrest

/-- A property is read from its two texts. -/
theorem Reads.property {p : DraftProperty} (hp : p.NulFree) {name attributes : UInt64}
    (hname : context.HasBytes name (p.name ++ [0]))
    (hattributes : context.HasBytes attributes (p.attributes ++ [0]))
    (h : context.HasBytes addr (context.pointers [name, attributes])) :
    Reads context (property addr) p.toProperty := by
  have hpointers := Yields.pointers (by simp) (by simp [hname.near.fits, hattributes.near.fits]) h
  refine (of_yields hpointers).bind ?_
  refine (of_yields (Yields.text hp.1 hname)).bind ?_
  refine (of_yields (Yields.text hp.2 hattributes)).bind ?_
  dsimp only
  split
  · exact pure _
  -- the type is decoded once more from its text, which changes nothing
  · rename_i htype
    have htyped := (PropertyAttributes.isDecoded_parse p.attributes).type_eq (by simpa using htype)
    refine (decodeType _).bind ?_
    rw [← htyped]
    exact pure _

/-- The methods of a list are read as its header tells. -/
theorem HasList.reads_methods {header : MethodListHeader} {entries : List Text}
    (h : HasList context addr header entries) {isClassMethod : Bool} {methods : List Method}
    (hmin : (if header.isSmall then 12 else 3 * context.image.pointerSize.toUInt64.toUInt32) ≤
      header.entrySize)
    (hitems : Reads context (RecordReader.entries addr header
      (if header.isSmall then smallMethod isClassMethod header.isDirect
        else bigMethod isClassMethod)) methods) :
    Reads context (RecordReader.methods addr isClassMethod) methods := by
  rw [RecordReader.methods, if_neg h.ne_zero]
  refine (Reads.of_yields h.yields_entryWord).bind ?_
  refine (Reads.of_yields Yields.pointerSize).bind ?_
  refine (Reads.of_yields (h.yields_listHeader hmin)).bind ?_
  cases hsmall : header.isSmall <;> simpa [hsmall] using hitems

end RecordReader

namespace Drafting

open RecordReader

namespace Writes

/-- A list is written with its header and its entries. -/
theorem list {β : Type} {f : β → Drafting Text} {R : β → Text → Context → Prop} (xs : List β)
    (hf : ∀ x ∈ xs, Writes (f x) (R x)) (size count : UInt32) :
    Writes (do
      let head ← Drafting.words [size, count]
      let entries ← xs.mapM f
      Drafting.record (head ++ entries.flatten)) fun addr context =>
        ∃ entries, List.Forall₂ (fun x bytes => R x bytes context) xs entries ∧
          context.HasBytes addr (context.words [size, count] ++ entries.flatten) := by
  refine (words _).bind fun head => (mapM xs hf).bind fun entries => (record _).imp ?_
  rintro addr context ⟨hrecord, -⟩ hentries rfl
  exact ⟨entries, hentries, hrecord⟩

/-- The entry of a method with three addresses is read as the method. -/
theorem addressEntry {m : DraftMethod} (hm : m.NulFree) :
    Writes (addressEntry m) fun bytes context => bytes.length = context.image.pointerSize * 3 ∧
      ∀ isClassMethod addr, context.HasBytes addr bytes →
        Reads context (bigMethod isClassMethod addr) (m.toMethod context.code isClassMethod) := by
  refine (cstring m.name).bind fun name => (cstring m.types).bind fun types =>
    codeAddr.bind fun code => (pointers _).imp fun bytes context hbytes hcode htypes hname => ?_
  subst hbytes hcode
  refine ⟨context.length_pointers _, fun isClassMethod addr h => ?_⟩
  exact Reads.bigMethod hm hname htypes context.near_code.fits h isClassMethod

/-- The methods of a list with addresses are read back. -/
private theorem addressList {ms : List DraftMethod} (hms : ∀ m ∈ ms, m.NulFree) (d : Draft) :
    Writes (do
      let head ← Drafting.words [3 * d.pointerSize.toUInt32, ms.length.toUInt32]
      let entries ← ms.mapM Drafting.addressEntry
      Drafting.record (head ++ entries.flatten)) fun addr context =>
        context.image.is64 = d.is64 → context.Near addr ∧ ∀ isClassMethod,
          Reads context (methods addr isClassMethod)
            (ms.map (·.toMethod context.code isClassMethod)) := by
  refine (list ms (fun m hm => addressEntry (hms m hm)) _ _).imp ?_
  rintro addr context ⟨entries, hentries, hbytes⟩ hwide
  refine ⟨hbytes.near, fun isClassMethod => ?_⟩
  rw [Draft.pointerSize_eq hwide] at hbytes
  let header : MethodListHeader :=
    ⟨3 * context.image.pointerSize.toUInt32, ms.length.toUInt32⟩
  obtain ⟨hsize, hsmall, hmin⟩ : header.entrySize.toNat = context.image.pointerSize * 3 ∧
      header.isSmall = false ∧
      3 * context.image.pointerSize.toUInt64.toUInt32 ≤ header.entrySize := by
    cases hwide : context.image.is64 <;>
      simp only [header, Image.pointerSize, hwide, MethodListHeader.entrySize,
        MethodListHeader.isSmall] <;>
      decide
  have hlist : HasList context addr header entries := HasList.of_forall₂ hentries hbytes
    (fun _ _ h => h.1.trans hsize.symm)
    (by rw [hsize]; exact Nat.mul_pos context.image.pointerSize_pos (by decide))
  refine hlist.reads_methods (by simpa [hsmall] using hmin) ?_
  rw [hsmall]
  exact hlist.reads_entries (hentries.imp fun m bytes h => h.2 isClassMethod)

/-- The targets of the distances of a method lead to its texts. -/
private theorem distanceTargets {layout : MethodLayout} (hlayout : layout ≠ .unmarkedDistances)
    (hlayout' : layout ≠ .addresses) (m : DraftMethod) :
    Writes (distanceTargets layout m) fun targets context =>
      Leads context (layout = .directDistances) m targets := by
  refine (cstring m.name).bind fun name => ?_
  cases layout with
  | addresses => exact absurd rfl hlayout'
  | unmarkedDistances => exact absurd rfl hlayout
  | distances =>
    refine (pointers [name]).bind fun bytes => ?_
    refine (append Draft.slotOf?_selrefs (by decide) bytes).bind fun target => ?_
    refine (cstring m.types).bind fun types => pure ?_
    rintro context htypes htarget rfl hname
    exact ⟨⟨name, hname, htarget⟩, htypes⟩
  | directDistances =>
    refine (cstring m.types).bind fun types => pure ?_
    rintro context htypes hname
    exact ⟨⟨name, hname, rfl⟩, htypes⟩

/-- The entries of methods with distances are put together without a change of the draft. -/
private theorem distanceEntries (code addr : UInt64) (targets : List (UInt64 × UInt64)) :
    Writes (distanceEntries code addr targets) fun bytes context =>
      code = context.code → bytes = (distanceList context addr targets).flatten := by
  induction targets generalizing addr with
  | nil => exact pure fun context _ => rfl
  | cons first rest ih =>
    refine (words _).bind fun bytes => (ih (addr + 12)).bind fun others => pure ?_
    rintro context hothers rfl rfl
    rw [hothers rfl, distanceList, List.flatten_cons]
    rfl

/-- The entries of a small list are made without a change to the draft. -/
private theorem distanceEntries_ok {code addr : UInt64} {targets : List (UInt64 × UInt64)}
    {d e : Draft} {bytes : Text}
    (h : Drafting.distanceEntries code addr targets d = .ok (bytes, e)) : e = d := by
  induction targets generalizing addr d e bytes with
  | nil => exact (pure_ok h).2
  | cons first rest ih =>
    obtain ⟨_, d₁, hfirst, h⟩ := bind_ok h
    obtain ⟨_, d₂, hrest, h⟩ := bind_ok h
    have hsame : d₁ = d := (pure_ok hfirst).2
    rw [(pure_ok h).2, ih hrest, hsame]

/-- A list with distances is written at the address from which the distances are taken. -/
private theorem distanceRecord (entryWord count : UInt32) (targets : List (UInt64 × UInt64)) :
    Writes (do
      Drafting.align "__DATA" "__objc_const" 8
      let s ← find "__DATA" "__objc_const"
      let addr := (← MonadState.get).addressOf s + s.contents.length.toUInt64
      let head ← Drafting.words [entryWord, count]
      let entries ← Drafting.distanceEntries (← Drafting.codeAddr) (addr + 8) targets
      Drafting.append "__DATA" "__objc_const" (head ++ entries)) fun addr context =>
        context.code.toNat < addr.toNat ∧ context.HasBytes addr (context.words [entryWord, count] ++
          (distanceList context (addr + 8) targets).flatten) := by
  intro d e addr hd h
  obtain ⟨_, d₁, halign, h⟩ := bind_ok h
  obtain ⟨hgrows, -⟩ := align_grows Draft.slotOf?_const (by decide) hd halign
  obtain ⟨s, d₂, hfind, h⟩ := bind_ok h
  obtain ⟨rfl, t, -, htslot, rfl⟩ := find_ok hgrows.regular hfind
  obtain hslot : t.slot = 9 := Option.some.inj (htslot.symm.trans Draft.slotOf?_const)
  rw [get_bind] at h
  obtain ⟨head, d₃, hhead, h⟩ := bind_ok h
  obtain ⟨-, hhead'⟩ := words _ d₂ d₃ head hgrows.regular hhead
  obtain ⟨-, rfl⟩ : _ ∧ d₃ = d₂ := pure_ok hhead
  obtain ⟨code, d₄, hcode, h⟩ := bind_ok h
  obtain ⟨-, hcode'⟩ := codeAddr d₃ d₄ code hgrows.regular hcode
  obtain ⟨rfl, -⟩ := codeAddr_ok hgrows.regular hcode
  obtain ⟨entries, d₅, hentries, happend⟩ := bind_ok h
  obtain ⟨-, hentries'⟩ := distanceEntries _ _ _ d₄ d₅ entries hgrows.regular hentries
  obtain rfl := distanceEntries_ok hentries
  obtain ⟨hgrows', hbytes, haddr⟩ :=
    append_grows Draft.slotOf?_const (by decide) hgrows.regular happend
  refine ⟨hgrows.trans hgrows', fun later context hlater hcontext => ?_⟩
  have hextends := hgrows'.toExtends.trans hlater
  have hforeseen : d₅.addressOf { t with contents := d₅.stored t.slot } +
      (d₅.stored t.slot).length.toUInt64 = addr := by
    rw [haddr, hslot]
    rfl
  have hlist := hentries' later context hextends hcontext (hcode' later context hextends hcontext)
  rw [hforeseen] at hlist
  have hrecord := hbytes.tells later context hlater hcontext
  rw [hlist, hhead' later context hextends hcontext] at hrecord
  refine ⟨?_, hrecord⟩
  have hlength := hgrows.regular.length_le 9
  rw [haddr, Draft.toNat_place _ _ _ (by decide) hlength, context.toNat_code, ← hextends.base_eq,
    hcontext.base_eq, slotSize]
  omega

/-- The first word of a list with distances tells their size and their kind. -/
private theorem distanceFlags_eq (layout : MethodLayout) :
    distanceFlags layout &&& MethodListHeader.sizeMask = 12 ∧
      decide (distanceFlags layout &&& 0x80000000 ≠ 0) = true ∧
      decide (distanceFlags layout &&& 0x40000000 ≠ 0) = decide (layout = .directDistances) := by
  cases layout <;> decide

/-- The methods of a list with distances are read back. -/
private theorem distanceList {layout : MethodLayout} (hlayout : layout ≠ .unmarkedDistances)
    (hlayout' : layout ≠ .addresses) {ms : List DraftMethod} (hms : ∀ m ∈ ms, m.NulFree) :
    Writes (do
      let targets ← ms.mapM (Drafting.distanceTargets layout)
      Drafting.align "__DATA" "__objc_const" 8
      let s ← find "__DATA" "__objc_const"
      let addr := (← MonadState.get).addressOf s + s.contents.length.toUInt64
      let head ← Drafting.words [distanceFlags layout, ms.length.toUInt32]
      let entries ← Drafting.distanceEntries (← Drafting.codeAddr) (addr + 8) targets
      Drafting.append "__DATA" "__objc_const" (head ++ entries)) fun addr context =>
        context.Near addr ∧ ∀ isClassMethod, Reads context (methods addr isClassMethod)
          (ms.map (·.toMethod context.code isClassMethod)) := by
  refine (mapM ms fun m _ => distanceTargets hlayout hlayout' m).bind fun targets =>
    (distanceRecord _ _ targets).imp ?_
  rintro addr context ⟨hcode, hbytes⟩ htargets
  refine ⟨hbytes.near, fun isClassMethod => ?_⟩
  let header : MethodListHeader := ⟨distanceFlags layout, ms.length.toUInt32⟩
  obtain ⟨hsize, hsmall, hdirect⟩ : header.entrySize = 12 ∧ header.isSmall = true ∧
      header.isDirect = decide (layout = .directDistances) := distanceFlags_eq layout
  obtain ⟨hlength, hsizes⟩ := length_distanceList context (addr + 8) targets
  have hlist : HasList context addr header
      (RecordReader.distanceList context (addr + 8) targets) := by
    refine ⟨hbytes, ?_, fun bytes hmem => ?_, ?_⟩
    · rw [hlength, ← htargets.length_eq]
    · rw [hsizes bytes hmem, hsize]
      rfl
    · rw [hsize]
      decide
  have hstart := toNat_add_of_near (show UInt64.toNat 8 ≤ 12 by decide) hbytes.near
  refine hlist.reads_methods (by rw [hsmall, hsize, if_pos rfl]; exact UInt32.le_refl 12) ?_
  rw [hlist.entries_eq, hsmall, hsize, hdirect, hlength, ← htargets.length_eq]
  exact Reads.entriesFrom_distanceList hms htargets (by omega) hlist.hasBytes_entries isClassMethod

/-- Methods are read back from each layout. -/
theorem methodList {layout : MethodLayout} (hlayout : layout ≠ .unmarkedDistances)
    {ms : List DraftMethod} (hms : ∀ m ∈ ms, m.NulFree) :
    Writes (methodList layout ms) fun addr context =>
      context.Fits addr ∧ ∀ isClassMethod, Reads context (methods addr isClassMethod)
        (ms.map (·.toMethod context.code isClassMethod)) := by
  rw [Drafting.methodList]
  refine get.bind fun d => ?_
  split
  · rename_i hempty
    rw [List.isEmpty_iff.1 hempty]
    exact pure fun context _ => ⟨context.fits_zero, fun _ => Reads.pure []⟩
  · split
    · refine (addressList hms d).imp fun addr context h hwide => ?_
      exact ⟨(h hwide).1.fits, (h hwide).2⟩
    · rename_i hsmall
      rw [Bool.or_eq_true, not_or] at hsmall
      refine (distanceList hlayout (by simpa using hsmall.1) hms).imp fun addr context h _ => ?_
      exact ⟨h.1.fits, h.2⟩

/-- The entry of an instance variable is read as the variable. -/
private theorem ivarEntry {v : DraftIvar} (hv : v.NulFree) (offset : UInt64) :
    Writes (ivarEntry (v, offset)) fun bytes context =>
      bytes.length = context.image.pointerSize * 3 + 8 ∧
        (context.HasBytes offset (context.words [v.offset, 0]) → ∀ addr,
          context.HasBytes addr bytes → Reads context (ivar addr) v.toIvar) := by
  refine (cstring v.name).bind fun name => (cstring v.type).bind fun type => ?_
  refine (pointers _).bind fun head => (words _).bind fun numbers => pure ?_
  rintro context rfl rfl htype hname
  refine ⟨by simp, fun hoffset addr h => Reads.ivar hv hoffset hname htype h⟩

/-- The offset of an instance variable is written into a record of its own. -/
private theorem ivarOffset (v : DraftIvar) :
    Writes (do Drafting.record (← Drafting.words [v.offset, 0])) fun offset context =>
      context.HasBytes offset (context.words [v.offset, 0]) := by
  refine (words _).bind fun bytes => (record bytes).imp ?_
  rintro offset context ⟨h, -⟩ rfl
  exact h

/-- Instance variables are read back. -/
theorem ivarList {vs : List DraftIvar} (hvs : ∀ v ∈ vs, v.NulFree) :
    Writes (ivarList vs) fun addr context =>
      context.Fits addr ∧ Reads context (ivars addr) (vs.map (·.toIvar)) := by
  rw [Drafting.ivarList]
  split
  · rename_i hempty
    rw [List.isEmpty_iff.1 hempty]
    exact pure fun context => ⟨context.fits_zero, Reads.pure []⟩
  · refine (mapM vs fun v _ => ivarOffset v).bind fun offsets => get.bind fun d => ?_
    refine (list (vs.zip offsets) (fun x hx => ivarEntry
      (hvs x.1 (List.of_mem_zip hx).1) x.2) _ _).imp ?_
    rintro addr context ⟨entries, hentries, hbytes⟩ hwide hoffsets
    have hzip : (vs.zip offsets).length = vs.length := by
      rw [List.length_zip, hoffsets.length_eq, Nat.min_self]
    rw [Draft.pointerSize_eq hwide, ← hzip] at hbytes
    let header : MethodListHeader :=
      ⟨3 * context.image.pointerSize.toUInt32 + 8, (vs.zip offsets).length.toUInt32⟩
    obtain ⟨hsize, hmin⟩ : header.entrySize.toNat = context.image.pointerSize * 3 + 8 ∧
        3 * context.image.pointerSize.toUInt64.toUInt32 + 8 ≤ header.entrySize := by
      cases hwide : context.image.is64 <;>
        simp only [header, Image.pointerSize, hwide, MethodListHeader.entrySize] <;>
        decide
    have hlist : HasList context addr header entries := HasList.of_forall₂ hentries hbytes
      (fun _ _ h => h.1.trans hsize.symm) (by rw [hsize]; omega)
    refine ⟨hbytes.near.fits, ?_⟩
    rw [ivars, if_neg hlist.ne_zero]
    refine (Reads.of_yields Yields.pointerSize).bind ?_
    refine (Reads.of_yields (hlist.yields_listHeader hmin)).bind ?_
    have hpaired :=
      (List.forall₂_and_left _ _).2 ⟨fun x hx => List.forall₂_zip hoffsets hx, hentries⟩
    have hvalues : (vs.zip offsets).map (fun x => x.1.toIvar) = vs.map (·.toIvar) := by
      have hmap := List.map_map (f := Prod.fst) (g := DraftIvar.toIvar) (l := vs.zip offsets)
      rw [List.map_fst_zip (le_of_eq hoffsets.length_eq)] at hmap
      exact hmap.symm
    rw [← hvalues]
    exact hlist.reads_entries (hpaired.imp fun x bytes h => h.2.2 h.1)

/-- The entry of a property is read as the property. -/
private theorem propertyEntry {p : DraftProperty} (hp : p.NulFree) :
    Writes (propertyEntry p) fun bytes context =>
      bytes.length = context.image.pointerSize * 2 ∧ ∀ addr,
        context.HasBytes addr bytes → Reads context (property addr) p.toProperty := by
  refine (cstring p.name).bind fun name => (cstring p.attributes).bind fun attributes =>
    (pointers _).imp ?_
  rintro bytes context rfl hattributes hname
  exact ⟨context.length_pointers _, fun addr h => Reads.property hp hname hattributes h⟩

/-- Properties are read back. -/
theorem propertyList {ps : List DraftProperty} (hps : ∀ p ∈ ps, p.NulFree) :
    Writes (propertyList ps) fun addr context =>
      context.Fits addr ∧ Reads context (properties addr) (ps.map (·.toProperty)) := by
  rw [Drafting.propertyList]
  split
  · rename_i hempty
    rw [List.isEmpty_iff.1 hempty]
    exact pure fun context => ⟨context.fits_zero, Reads.pure []⟩
  · refine get.bind fun d => (list ps (fun p hp => propertyEntry (hps p hp)) _ _).imp ?_
    rintro addr context ⟨entries, hentries, hbytes⟩ hwide
    rw [Draft.pointerSize_eq hwide] at hbytes
    let header : MethodListHeader :=
      ⟨2 * context.image.pointerSize.toUInt32, ps.length.toUInt32⟩
    obtain ⟨hsize, hmin⟩ : header.entrySize.toNat = context.image.pointerSize * 2 ∧
        2 * context.image.pointerSize.toUInt64.toUInt32 ≤ header.entrySize := by
      cases hwide : context.image.is64 <;>
        simp only [header, Image.pointerSize, hwide, MethodListHeader.entrySize] <;>
        decide
    have hlist : HasList context addr header entries := HasList.of_forall₂ hentries hbytes
      (fun _ _ h => h.1.trans hsize.symm)
      (by rw [hsize]; exact Nat.mul_pos context.image.pointerSize_pos (by decide))
    refine ⟨hbytes.near.fits, ?_⟩
    rw [properties, if_neg hlist.ne_zero]
    refine (Reads.of_yields Yields.pointerSize).bind ?_
    refine (Reads.of_yields (hlist.yields_listHeader hmin)).bind ?_
    exact hlist.reads_entries (hentries.imp fun p bytes h => h.2)

/-- The names of protocols are read back, if they are those at the addresses. -/
theorem protocolList {addrs : List UInt64} :
    Writes (protocolList addrs) fun addr context => context.Fits addr ∧
      ∀ nameOf : UInt64 → Text,
        (∀ a ∈ addrs, context.Fits a ∧ ProtocolNamed context a (nameOf a)) →
          Reads context (protocolNames addr) (addrs.map nameOf) := by
  rw [Drafting.protocolList]
  split
  · rename_i hempty
    rw [List.isEmpty_iff.1 hempty]
    exact pure fun context => ⟨context.fits_zero, fun _ _ => Reads.pure []⟩
  · rename_i hempty
    refine (pointers _).bind fun bytes => (record bytes).imp ?_
    rintro addr context ⟨hbytes, -⟩ rfl
    refine ⟨hbytes.near.fits, fun nameOf hnames => ?_⟩
    have hlength := hbytes.length_le
    have hpos := context.image.pointerSize_pos
    rw [Context.length_pointers, List.length_cons, slotSize] at hlength
    have hle : addrs.length + 1 ≤ 4096 := (Nat.le_mul_of_pos_left _ hpos).trans hlength
    -- a slot cannot hold as many addresses as a count could state
    have hcount : addrs.length.toUInt64.toNat = addrs.length :=
      UInt64.toNat_ofNat_of_lt' (by rw [UInt64.size]; omega)
    have haddrs : addrs ≠ [] := by simpa using hempty
    have hne : addrs.length.toUInt64 ≠ 0 := by
      intro hzero
      rw [hzero] at hcount
      exact haddrs (List.length_eq_zero_iff.1 hcount.symm)
    have hsmall : ¬ 0xFFFFFFFF < addrs.length.toUInt64 := by
      rw [UInt64.lt_iff_toNat_lt, hcount]
      change ¬ 0xFFFFFFFF < _
      omega
    rw [Context.pointers_cons] at hbytes
    have hrest := hbytes.right
    rw [Context.length_pointers, List.length_singleton, Nat.mul_one] at hrest
    have hfirst := Yields.pointerAt (fun _ => by rw [hcount]; omega) hbytes.left
    have hwords := Yields.pointers haddrs (fun a ha => (hnames a ha).1) hrest
    rw [← hcount] at hwords
    rw [protocolNames, if_neg hbytes.near.ne_zero]
    refine (Reads.of_yields hfirst).bind ?_
    simp only [if_neg hne, if_neg hsmall]
    refine (Reads.of_yields Yields.pointerSize).bind ((Reads.of_yields hwords).bind ?_)
    refine Reads.mapM (List.forall₂_map_left_iff.2 (List.forall₂_map_right_iff.2 ?_))
    exact List.forall₂_same.2 fun a ha => Reads.protocolName (hnames a ha).2

end Writes

end Drafting

end ObjcLens
