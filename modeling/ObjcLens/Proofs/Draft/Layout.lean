import Mathlib
import ObjcLens.Draft.Record
import ObjcLens.Proofs.Bytes

/-!
# Drafts only grow

The sections of a draft are those of the empty draft with other contents, so a draft is known by
the bytes in its slots. Records are only ever added: what was written stays where it is. `Extends`
compares two drafts in that way, and `Grows` is what a step does that writes records but lists
none of them.

## Main results

* `append_ok`, `align_ok`: what the two steps do that write bytes.
* `record_ok`, `cstring_ok`: records and texts are at the addresses that are returned.
* `HasBytes.mono`: bytes stay where they are.
-/

namespace ObjcLens

namespace Draft

/-- The bytes in a slot. -/
def stored (d : Draft) (slot : Nat) : Text :=
  ((d.sections.find? fun s => s.slot = slot).map (·.contents)).getD []

/-- The sections of a draft with the given bytes in its slots. -/
def layOut (bytes : Nat → Text) : List DraftSection :=
  emptySections.map fun s => { s with contents := bytes s.slot }

/-- The draft with other bytes in a slot. -/
def store (d : Draft) (slot : Nat) (bytes : Text) : Draft :=
  { d with sections := layOut (Function.update d.stored slot bytes) }

/-- The slot of the section with a name in a segment. -/
def slotOf? (segment name : Text) : Option Nat :=
  (emptySections.find? fun s => s.segment = segment && s.name = name).map (·.slot)

theorem slotOf?_text : slotOf? "__TEXT" "__text" = some 1 := by decide

theorem slotOf?_cstring : slotOf? "__TEXT" "__cstring" = some 2 := by decide

theorem slotOf?_classlist : slotOf? "__DATA_CONST" "__objc_classlist" = some 4 := by decide

theorem slotOf?_catlist : slotOf? "__DATA_CONST" "__objc_catlist" = some 5 := by decide

theorem slotOf?_protolist : slotOf? "__DATA_CONST" "__objc_protolist" = some 6 := by decide

theorem slotOf?_imageinfo : slotOf? "__DATA_CONST" "__objc_imageinfo" = some 7 := by decide

theorem slotOf?_selrefs : slotOf? "__DATA" "__objc_selrefs" = some 8 := by decide

theorem slotOf?_const : slotOf? "__DATA" "__objc_const" = some 9 := by decide

theorem slotOf?_data : slotOf? "__DATA" "__objc_data" = some 10 := by decide

/-- The sections of the empty draft have names and slots of their own. -/
theorem slot_eq_iff : ∀ s ∈ emptySections, ∀ t ∈ emptySections,
    ((s.segment = t.segment && s.name = t.name) = true ↔ s.slot = t.slot) := by
  decide +kernel

/-- The sections of an empty draft are in the slots from one to eleven. -/
private theorem slot_mem : ∀ s ∈ emptySections, s.slot ∈ List.range' 1 11 := by
  decide

/-- The slots that have bytes in the file are among all slots. -/
private theorem mem_slots_of_mem_filled {slot : Nat} (hslot : slot ∈ List.range' 1 10) :
    slot ∈ List.range' 1 11 := by
  rw [List.mem_range'_1] at hslot ⊢
  omega

/-- A slot holds the bytes that it was laid out with. -/
theorem stored_of_sections_eq {d : Draft} {bytes : Nat → Text} (h : d.sections = layOut bytes)
    (slot : Nat) : d.stored slot = if slot ∈ List.range' 1 11 then bytes slot else [] := by
  rw [stored, h, layOut, List.find?_map]
  split
  · rename_i hslot
    fin_cases hslot <;> rfl
  · rename_i hslot
    have hnone : emptySections.find? ((fun s : DraftSection => decide (s.slot = slot)) ∘
        fun s => { s with contents := bytes s.slot }) = none := by
      rw [List.find?_eq_none]
      intro s hs heq
      have heq : s.slot = slot := by simpa using heq
      exact hslot (heq ▸ slot_mem s hs)
    rw [hnone]
    rfl

/-- Storing bytes in a slot changes this slot alone. -/
theorem stored_store {d : Draft} (hd : d.sections = layOut d.stored) {slot : Nat}
    (hslot : slot ∈ List.range' 1 11) (bytes : Text) :
    (d.store slot bytes).stored = Function.update d.stored slot bytes := by
  funext other
  rw [stored_of_sections_eq rfl]
  split
  · rfl
  · rename_i hother
    have hne : other ≠ slot := fun heq => hother (heq ▸ hslot)
    rw [Function.update_of_ne hne, stored_of_sections_eq hd, if_neg hother]

/-- The address of a byte in a slot. -/
def place (d : Draft) (slot index : Nat) : UInt64 :=
  d.base + (slot * slotSize).toUInt64 + index.toUInt64

/-- The address some bytes further on. -/
theorem place_add (d : Draft) (slot index count : Nat) :
    d.place slot index + count.toUInt64 = d.place slot (index + count) := by
  rw [place, place, UInt64.add_assoc, ← UInt64.ofNat_add]

/-- The bytes are at the address, in a slot that has bytes in the file. -/
def HasBytes (d : Draft) (addr : UInt64) (bytes : Text) : Prop :=
  ∃ slot ∈ List.range' 1 10, ∃ before after, d.stored slot = before ++ bytes ++ after ∧
    addr = d.place slot before.length

/-- The first bytes of a sequence are where the sequence is. -/
theorem HasBytes.left {d : Draft} {addr : UInt64} {a b : Text} (h : d.HasBytes addr (a ++ b)) :
    d.HasBytes addr a := by
  obtain ⟨slot, hslot, before, after, hstored, haddr⟩ := h
  exact ⟨slot, hslot, before, b ++ after, by simpa using hstored, haddr⟩

/-- The bytes behind others are where these end. -/
theorem HasBytes.right {d : Draft} {addr : UInt64} {a b : Text} (h : d.HasBytes addr (a ++ b)) :
    d.HasBytes (addr + a.length.toUInt64) b := by
  obtain ⟨slot, hslot, before, after, hstored, rfl⟩ := h
  refine ⟨slot, hslot, before ++ a, after, by simpa using hstored, ?_⟩
  rw [place_add, List.length_append]

/-- A draft that was made by adding bytes to slots. -/
structure Regular (d : Draft) : Prop where
  /-- The sections are those of the empty draft, but for the contents. -/
  sections_eq : d.sections = layOut d.stored
  /-- No slot overflows. -/
  length_le : ∀ slot, (d.stored slot).length ≤ slotSize
  /-- The section without bytes in the file is empty. -/
  bss_eq : d.stored 11 = []
  /-- There are no further load commands. -/
  loads_eq : d.loads = []
  /-- Nothing is encrypted. -/
  encryptions_eq : d.encryptions = []
  /-- Known texts are where they were written. -/
  texts_eq : ∀ entry ∈ d.texts, d.HasBytes entry.2 (entry.1 ++ [0])

/-- The second draft has everything that the first one has. -/
structure Extends (d e : Draft) : Prop where
  cpu_eq : e.cpu = d.cpu
  order_eq : e.order = d.order
  stored_le : ∀ slot, d.stored slot <+: e.stored slot

/-- The second draft was made from the first one by writing records. The lists and the image info
are as they were. -/
structure Grows (d e : Draft) : Prop extends Extends d e where
  regular : e.Regular
  lists_eq : ∀ slot ∈ [4, 5, 6, 7], e.stored slot = d.stored slot

/-- The second draft was made from the first one by writing records and adding bytes to one of the
lists, or to the image info. -/
structure Lists (d e : Draft) (slot : Nat) (bytes : Text) : Prop extends Extends d e where
  regular : e.Regular
  lists_eq : ∀ other ∈ [4, 5, 6, 7],
    e.stored other = d.stored other ++ if other = slot then bytes else []

/-- A draft extends itself. -/
theorem Extends.refl (d : Draft) : d.Extends d := ⟨rfl, rfl, fun _ => List.prefix_rfl⟩

/-- What is added to a draft may be added in several steps. -/
theorem Extends.trans {d e f : Draft} (h : d.Extends e) (h' : e.Extends f) : d.Extends f :=
  ⟨h'.cpu_eq.trans h.cpu_eq, h'.order_eq.trans h.order_eq,
    fun slot => (h.stored_le slot).trans (h'.stored_le slot)⟩

theorem Grows.refl {d : Draft} (hd : d.Regular) : d.Grows d :=
  ⟨Extends.refl d, hd, fun _ _ => rfl⟩

/-- Steps that keep a draft regular can be taken one after the other. -/
theorem Grows.trans {d e f : Draft} (h : d.Grows e) (h' : e.Grows f) : d.Grows f :=
  ⟨h.toExtends.trans h'.toExtends, h'.regular,
    fun slot hslot => (h'.lists_eq slot hslot).trans (h.lists_eq slot hslot)⟩

/-- Records alone add nothing to the lists. -/
theorem Grows.lists {d e : Draft} (h : d.Grows e) (slot : Nat) : d.Lists e slot [] :=
  ⟨h.toExtends, h.regular, fun other hother => by rw [h.lists_eq other hother, ite_self,
    List.append_nil]⟩

/-- Records may be written before anything is listed. -/
theorem Grows.trans_lists {d e f : Draft} (h : d.Grows e) {slot : Nat} {bytes : Text}
    (h' : e.Lists f slot bytes) : d.Lists f slot bytes :=
  ⟨h.toExtends.trans h'.toExtends, h'.regular,
    fun other hother => by rw [h'.lists_eq other hother, h.lists_eq other hother]⟩

section Extends

variable {d e : Draft} (h : d.Extends e)
include h

theorem Extends.is64_eq : e.is64 = d.is64 := by rw [is64, h.cpu_eq, is64]

theorem Extends.base_eq : e.base = d.base := by rw [base, h.is64_eq, base]

/-- The place of an entry in a slot does not move while the draft grows. -/
theorem Extends.place_eq (slot index : Nat) : e.place slot index = d.place slot index := by
  rw [place, h.base_eq, place]

theorem Extends.pointers_eq (values : List UInt64) : e.pointers values = d.pointers values := by
  simp only [pointers, h.is64_eq, h.order_eq]

theorem Extends.words_eq (values : List UInt32) : e.words values = d.words values := by
  simp only [words, h.order_eq]

/-- Bytes stay where they are. -/
theorem HasBytes.mono {addr : UInt64} {bytes : Text} (hbytes : d.HasBytes addr bytes) :
    e.HasBytes addr bytes := by
  obtain ⟨slot, hslot, before, after, hstored, haddr⟩ := hbytes
  obtain ⟨more, hmore⟩ := h.stored_le slot
  refine ⟨slot, hslot, before, after ++ more, ?_, ?_⟩
  · rw [← hmore, hstored]
    simp
  · rw [haddr, h.place_eq]

end Extends

/-- Adding bytes to a slot keeps a draft regular. -/
theorem Regular.store_append {d : Draft} (hd : d.Regular) {slot : Nat}
    (hslot : slot ∈ List.range' 1 10) {bytes : Text}
    (hlength : (d.stored slot ++ bytes).length ≤ slotSize) :
    (d.store slot (d.stored slot ++ bytes)).Regular ∧
      d.Extends (d.store slot (d.stored slot ++ bytes)) := by
  have hstored :=
    stored_store hd.sections_eq (mem_slots_of_mem_filled hslot) (d.stored slot ++ bytes)
  have hextends : d.Extends (d.store slot (d.stored slot ++ bytes)) := by
    refine ⟨rfl, rfl, fun other => ?_⟩
    rw [hstored]
    by_cases hother : other = slot
    · rw [hother, Function.update_self]
      exact List.prefix_append _ _
    · rw [Function.update_of_ne hother]
  -- other slots are as they were, and the one that grew still fits
  refine ⟨⟨?_, ?_, ?_, hd.loads_eq, hd.encryptions_eq, ?_⟩, hextends⟩
  · rw [hstored]
    rfl
  · intro other
    rw [hstored]
    by_cases hother : other = slot
    · rwa [hother, Function.update_self]
    · rw [Function.update_of_ne hother]
      exact hd.length_le other
  · have hne : 11 ≠ slot := by
      rw [List.mem_range'_1] at hslot
      omega
    rw [hstored, Function.update_of_ne hne, hd.bss_eq]
  · exact fun entry hentry => HasBytes.mono hextends (hd.texts_eq entry hentry)

/-- A section that is found is one of the draft, and has the names that were asked for. -/
theorem mem_of_section?_eq_some {d : Draft} {segment name : Text} {s : DraftSection}
    (h : d.section? segment name = some s) :
    s ∈ d.sections ∧ s.segment = segment ∧ s.name = name := by
  have hnames := List.find?_some h
  rw [Bool.and_eq_true, decide_eq_true_iff, decide_eq_true_iff] at hnames
  exact ⟨List.mem_of_find?_eq_some h, hnames⟩

/-- The section with a name is in its slot. -/
theorem section?_eq_some {d : Draft} (hd : d.sections = layOut d.stored) {segment name : Text}
    {s : DraftSection} (h : d.section? segment name = some s) :
    ∃ t ∈ emptySections, slotOf? segment name = some t.slot ∧
      s = { t with contents := d.stored t.slot } := by
  rw [section?, hd, layOut, List.find?_map, Option.map_eq_some_iff] at h
  obtain ⟨t, ht, rfl⟩ := h
  exact ⟨t, List.mem_of_find?_eq_some ht, congrArg (Option.map DraftSection.slot) ht, rfl⟩

/-- Replacing the contents of a section stores them in its slot. -/
theorem setSection_eq_store {d : Draft} (hd : d.sections = layOut d.stored) {t : DraftSection}
    (ht : t ∈ emptySections) (contents : Text) :
    d.setSection { t with contents } = d.store t.slot contents := by
  rw [setSection, store, hd]
  congr 1
  rw [layOut, List.map_map]
  refine List.map_congr_left fun s hs => ?_
  -- sections are found by their names, and no two of them have one slot
  have hkey := slot_eq_iff s hs t ht
  simp only [Function.comp_apply]
  split
  · rename_i heq
    have hst : s = t := List.inj_on_of_nodup_map (by decide) hs ht (hkey.1 heq)
    rw [hst, Function.update_self]
  · rename_i hne
    have hslot : s.slot ≠ t.slot := fun heq => hne (hkey.2 heq)
    rw [Function.update_of_ne hslot]

end Draft

namespace Drafting

open Draft

/-- Two steps succeed if the first one does and the second one on what it leaves. -/
theorem bind_ok {α β : Type} {m : Drafting α} {f : α → Drafting β} {d e : Draft} {b : β}
    (h : (m >>= f) d = .ok (b, e)) : ∃ a d', m d = .ok (a, d') ∧ f a d' = .ok (b, e) := by
  change (m d >>= fun p => f p.1 p.2) = _ at h
  cases hm : m d with
  | error error => simp [hm, bind, Except.bind] at h
  | ok p => exact ⟨p.1, p.2, rfl, by simpa [hm, bind, Except.bind] using h⟩

theorem pure_ok {α : Type} {a b : α} {d e : Draft}
    (h : (pure a : Drafting α) d = .ok (b, e)) : b = a ∧ e = d := by
  have h : Except.ok (a, d) = Except.ok (b, e) := h
  simpa [eq_comm] using h

theorem get_bind {β : Type} (f : Draft → Drafting β) (d : Draft) : (get >>= f) d = f d d := rfl

theorem modify_bind {β : Type} (g : Draft → Draft) (f : Unit → Drafting β) (d : Draft) :
    (modify g >>= f) d = f () (g d) := rfl

theorem throw_ne_ok {α : Type} {error : DraftError} {d : Draft} {p : α × Draft} :
    (throw error : Drafting α) d ≠ .ok p := by
  rintro ⟨⟩

/-- What follows a refusal is reached where nothing is refused. -/
theorem ite_throw_ok {α β : Type} {c : Prop} [Decidable c] {error : DraftError}
    {f : α → Drafting β} {m : Drafting β} {d : Draft} {p : β × Draft}
    (h : (if c then throw error >>= f else m) d = .ok p) : ¬ c ∧ m d = .ok p := by
  by_cases hc : c
  · rw [if_pos hc] at h
    obtain ⟨_, _, hthrow, -⟩ := bind_ok h
    exact absurd hthrow throw_ne_ok
  · rw [if_neg hc] at h
    exact ⟨hc, h⟩

/-- A section that is found has the names, and the draft stays the same. -/
theorem find_eq_ok {segment name : Text} {d e : Draft} {s : DraftSection}
    (h : find segment name d = .ok (s, e)) : e = d ∧ d.section? segment name = some s := by
  rw [find, get_bind] at h
  cases hfound : d.section? segment name with
  | none =>
    simp only [hfound] at h
    exact absurd h throw_ne_ok
  | some t =>
    simp only [hfound] at h
    obtain ⟨rfl, rfl⟩ := pure_ok h
    exact ⟨rfl, rfl⟩

/-- A section that is found is in its slot, and the draft stays the same. -/
theorem find_ok {segment name : Text} {d e : Draft} {s : DraftSection} (hd : d.Regular)
    (h : find segment name d = .ok (s, e)) :
    e = d ∧ ∃ t ∈ emptySections, slotOf? segment name = some t.slot ∧
      s = { t with contents := d.stored t.slot } := by
  obtain ⟨rfl, hfound⟩ := find_eq_ok h
  exact ⟨rfl, section?_eq_some hd.sections_eq hfound⟩

/-- Bytes are added to the slot of the section, and their address is returned. -/
theorem append_ok {segment name : Text} {slot : Nat} (hslot : slotOf? segment name = some slot)
    {bytes : Text} {d e : Draft} {addr : UInt64} (hd : d.Regular)
    (h : append segment name bytes d = .ok (addr, e)) :
    addr = d.place slot (d.stored slot).length ∧ (d.stored slot ++ bytes).length ≤ slotSize ∧
      e = d.store slot (d.stored slot ++ bytes) := by
  obtain ⟨s, d', hfind, hwrite⟩ := bind_ok h
  obtain ⟨rfl, t, ht, htslot, rfl⟩ := find_ok hd hfind
  obtain rfl : t.slot = slot := Option.some.inj (htslot.symm.trans hslot)
  obtain ⟨hlength, hwrite⟩ := ite_throw_ok hwrite
  obtain ⟨rfl, rfl⟩ : addr = _ ∧ e = _ := pure_ok hwrite
  exact ⟨rfl, Nat.le_of_not_lt hlength, setSection_eq_store hd.sections_eq ht _⟩

/-- Padding adds zero bytes to the slot up to a multiple of eight. -/
theorem align_ok {segment name : Text} {slot : Nat} (hslot : slotOf? segment name = some slot)
    {d e : Draft} (hd : d.Regular) (h : align segment name 8 d = .ok ((), e)) :
    ∃ count, ((d.stored slot).length + count) % 8 = 0 ∧ count < 8 ∧
      e = d.store slot (d.stored slot ++ List.replicate count 0) := by
  obtain ⟨s, d', hfind, hwrite⟩ := bind_ok h
  obtain ⟨rfl, t, ht, htslot, rfl⟩ := find_ok hd hfind
  obtain rfl : t.slot = slot := Option.some.inj (htslot.symm.trans hslot)
  obtain ⟨-, hwrite⟩ := ite_throw_ok hwrite
  obtain ⟨-, rfl⟩ : _ ∧ e = _ := pure_ok hwrite
  refine ⟨_, ?_, ?_, setSection_eq_store hd.sections_eq ht _⟩
  · have hunit : Int.natAbs 8 = 8 := rfl
    dsimp only
    rw [hunit]
    omega
  · exact Nat.mod_lt _ (by decide)

/-- Storing more bytes in a slot that is no list. -/
private theorem grows_store {d : Draft} (hd : d.Regular) {slot : Nat} (hslot : slot ∈ [2, 8, 9, 10])
    {bytes : Text} (hlength : (d.stored slot ++ bytes).length ≤ slotSize) :
    d.Grows (d.store slot (d.stored slot ++ bytes)) ∧
      (d.store slot (d.stored slot ++ bytes)).stored slot = d.stored slot ++ bytes := by
  have hrange : slot ∈ List.range' 1 10 := by
    fin_cases hslot <;> decide
  have hstored :=
    stored_store hd.sections_eq (mem_slots_of_mem_filled hrange) (d.stored slot ++ bytes)
  obtain ⟨hregular, hextends⟩ := hd.store_append hrange hlength
  -- the slots that list records are others than this one
  refine ⟨⟨hextends, hregular, fun other hother => ?_⟩, ?_⟩
  · have hne : other ≠ slot := by
      rintro rfl
      fin_cases hother <;> exact absurd hslot (by decide)
    rw [hstored, Function.update_of_ne hne]
  · rw [hstored, Function.update_self]

/-- Bytes that are added to a slot are at the address that is returned. -/
theorem append_grows {segment name : Text} {slot : Nat}
    (hsection : slotOf? segment name = some slot) (hslot : slot ∈ [2, 8, 9, 10]) {bytes : Text}
    {d e : Draft} {addr : UInt64} (hd : d.Regular)
    (h : append segment name bytes d = .ok (addr, e)) :
    d.Grows e ∧ e.HasBytes addr bytes ∧ addr = d.place slot (d.stored slot).length := by
  obtain ⟨haddr, hlength, rfl⟩ := append_ok hsection hd h
  obtain ⟨hgrows, hstored⟩ := grows_store hd hslot hlength
  refine ⟨hgrows, ⟨slot, ?_, d.stored slot, [], ?_, ?_⟩, haddr⟩
  · fin_cases hslot <;> decide
  · rw [hstored, List.append_nil]
  · rw [hgrows.toExtends.place_eq, haddr]

/-- Bytes are added to a list. -/
theorem append_lists {segment name : Text} {slot : Nat}
    (hsection : slotOf? segment name = some slot) (hslot : slot ∈ [4, 5, 6, 7]) {bytes : Text}
    {d e : Draft} {addr : UInt64} (hd : d.Regular)
    (h : append segment name bytes d = .ok (addr, e)) : d.Lists e slot bytes := by
  obtain ⟨-, hlength, rfl⟩ := append_ok hsection hd h
  have hrange : slot ∈ List.range' 1 10 := by
    fin_cases hslot <;> decide
  obtain ⟨hregular, hextends⟩ := hd.store_append hrange hlength
  -- only the slot itself is longer, and by these bytes
  refine ⟨hextends, hregular, fun other _ => ?_⟩
  rw [stored_store hd.sections_eq (mem_slots_of_mem_filled hrange)]
  split
  · rename_i heq
    rw [heq, Function.update_self]
  · rename_i hne
    rw [Function.update_of_ne hne, List.append_nil]

/-- After padding, the slot is filled to a multiple of eight. -/
theorem align_grows {segment name : Text} {slot : Nat}
    (hsection : slotOf? segment name = some slot) (hslot : slot ∈ [2, 8, 9, 10]) {d e : Draft}
    (hd : d.Regular) (h : align segment name 8 d = .ok ((), e)) :
    d.Grows e ∧ (e.stored slot).length % 8 = 0 := by
  obtain ⟨count, hmod, hcount, rfl⟩ := align_ok hsection hd h
  -- the slot itself ends at a multiple of eight, so that the padding fits
  have hlength : (d.stored slot ++ List.replicate count 0).length ≤ slotSize := by
    have hfull := hd.length_le slot
    rw [List.length_append, List.length_replicate]
    rw [slotSize] at hfull ⊢
    omega
  obtain ⟨hgrows, hstored⟩ := grows_store hd hslot hlength
  refine ⟨hgrows, ?_⟩
  rw [hstored, List.length_append, List.length_replicate, hmod]

/-- A record is at the address that is returned, which is a multiple of eight. -/
theorem record_ok {bytes : Text} {d e : Draft} {addr : UInt64} (hd : d.Regular)
    (h : record bytes d = .ok (addr, e)) :
    d.Grows e ∧ e.HasBytes addr bytes ∧ ∃ index, addr = d.place 9 index ∧ index % 8 = 0 := by
  obtain ⟨_, d', halign, happend⟩ := bind_ok h
  obtain ⟨hgrows, hmod⟩ := align_grows slotOf?_const (by decide) hd halign
  obtain ⟨hgrows', hbytes, haddr⟩ :=
    append_grows slotOf?_const (by decide) hgrows.regular happend
  exact ⟨hgrows.trans hgrows', hbytes, _, by rw [haddr, hgrows.toExtends.place_eq], hmod⟩

/-- A text is at the address that is returned, whether it was known or not. -/
theorem cstring_ok {text : Text} {d e : Draft} {addr : UInt64} (hd : d.Regular)
    (h : cstring text d = .ok (addr, e)) : d.Grows e ∧ e.HasBytes addr (text ++ [0]) := by
  rw [cstring, get_bind] at h
  cases hfound : d.texts.find? fun entry => entry.1 = text with
  | some entry =>
    simp only [hfound] at h
    obtain ⟨rfl, rfl⟩ := pure_ok h
    have hbytes := hd.texts_eq entry (List.mem_of_find?_eq_some hfound)
    have htext : entry.1 = text := by simpa using List.find?_some hfound
    rw [htext] at hbytes
    exact ⟨Grows.refl hd, hbytes⟩
  | none =>
    simp only [hfound] at h
    obtain ⟨a, d', happend, h⟩ := bind_ok h
    rw [modify_bind] at h
    obtain ⟨rfl, rfl⟩ := pure_ok h
    obtain ⟨hgrows, hbytes, -⟩ := append_grows slotOf?_cstring (by decide) hd happend
    refine ⟨⟨⟨hgrows.cpu_eq, hgrows.order_eq, hgrows.stored_le⟩, ?_, hgrows.lists_eq⟩, hbytes⟩
    have hregular := hgrows.regular
    exact ⟨hregular.sections_eq, hregular.length_le, hregular.bss_eq, hregular.loads_eq,
      hregular.encryptions_eq, List.forall_mem_cons.2 ⟨hbytes, hregular.texts_eq⟩⟩

/-- The code of every method is at the start of its section. -/
theorem codeAddr_ok {d e : Draft} {addr : UInt64} (hd : d.Regular)
    (h : codeAddr d = .ok (addr, e)) : e = d ∧ addr = d.place 1 0 := by
  obtain ⟨s, d', hfind, h⟩ := bind_ok h
  obtain ⟨rfl, t, -, htslot, rfl⟩ := find_ok hd hfind
  have hslot : t.slot = 1 := Option.some.inj (htslot.symm.trans slotOf?_text)
  rw [get_bind] at h
  obtain ⟨rfl, rfl⟩ := pure_ok h
  refine ⟨rfl, ?_⟩
  rw [addressOf, DraftSection.offset, hslot, place]
  exact (UInt64.add_zero _).symm

end Drafting

end ObjcLens
