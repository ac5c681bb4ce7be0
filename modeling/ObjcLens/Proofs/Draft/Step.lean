import Mathlib
import ObjcLens.Proofs.Draft.Layout

/-!
# What a draft can become

A draft is put together step by step. The byte order may be chosen at any time, bytes are added to
sections, padded and overwritten, the last section gets a size, and further load commands and
encryption commands are added. `Draft.Step` is the relation of these steps, and every step that
writes records is a sequence of them. The sections keep their names, slots and flags all the time:
a draft is framed by the sections of the empty draft.

## Main results

* `Step.framed`, `Reached.framed`: one step, and every sequence of steps from a new draft, keeps the
  frames of the sections.
* `Step.short_or_align`: of all steps, only padding makes a section longer than its slot.
* `stepwise_addClass`, `stepwise_addProtocol`, `stepwise_addCategory`: records are written step by
  step.
-/

namespace ObjcLens

/-- A section without its contents and the size that is stated of it. -/
def DraftSection.frame (s : DraftSection) : DraftSection :=
  { s with fixedSize := 0, contents := [] }

namespace Draft

/-- The sections of the draft are those of the empty draft, but for their contents and the size that
is stated of the last one. -/
structure Framed (d : Draft) : Prop where
  frames_eq : d.sections.map DraftSection.frame = emptySections
  /-- Only a section without bytes in the file has a size of its own. -/
  fixedSize_eq : ∀ s ∈ d.sections, s.isZeroFill = false → s.fixedSize = 0

namespace Framed

variable {d : Draft} (hd : d.Framed)
include hd

/-- Without its contents, a section is one of the empty ones. -/
theorem frame_mem {s : DraftSection} (hs : s ∈ d.sections) : s.frame ∈ emptySections :=
  hd.frames_eq ▸ List.mem_map_of_mem hs

/-- No two sections share a slot. -/
theorem nodup_slots : (d.sections.map (·.slot)).Nodup := by
  have hslots : d.sections.map (·.slot) = emptySections.map (·.slot) := by
    rw [← hd.frames_eq, List.map_map]
    rfl
  rw [hslots]
  decide

/-- A section is known by its slot. -/
theorem eq_of_slot {s t : DraftSection} (hs : s ∈ d.sections) (ht : t ∈ d.sections)
    (h : s.slot = t.slot) : s = t :=
  List.inj_on_of_nodup_map hd.nodup_slots hs ht h

/-- A section is known by its names. -/
theorem eq_of_names {s t : DraftSection} (hs : s ∈ d.sections) (ht : t ∈ d.sections)
    (hsegment : s.segment = t.segment) (hname : s.name = t.name) : s = t := by
  refine hd.eq_of_slot hs ht ?_
  exact (slot_eq_iff _ (hd.frame_mem hs) _ (hd.frame_mem ht)).1
    (by simp [DraftSection.frame, hsegment, hname])

/-- Among some of the sections, one is found by its names. -/
theorem find?_eq {sections : List DraftSection} (hsub : sections ⊆ d.sections) {s : DraftSection}
    (hs : s ∈ sections) :
    (sections.find? fun t => t.segment = s.segment && t.name = s.name) = some s := by
  cases hfound : sections.find? fun t => t.segment = s.segment && t.name = s.name with
  | none => exact absurd (List.find?_eq_none.1 hfound s hs) (by simp)
  | some t =>
    have hnames := List.find?_some hfound
    rw [Bool.and_eq_true, decide_eq_true_iff, decide_eq_true_iff] at hnames
    have ht := hsub (List.mem_of_find?_eq_some hfound)
    rw [hd.eq_of_names ht (hsub hs) hnames.1 hnames.2]

/-- A section is found by its names. -/
theorem section?_eq {s : DraftSection} (hs : s ∈ d.sections) :
    d.section? s.segment s.name = some s :=
  hd.find?_eq (List.Subset.refl _) hs

/-- Another section with the same frame may take the place of a section. -/
theorem setSection {s new : DraftSection} (hs : s ∈ d.sections) (hframe : new.frame = s.frame)
    (hfixed : new.isZeroFill = false → new.fixedSize = 0) : (d.setSection new).Framed := by
  have hsegment : new.segment = s.segment := congrArg (·.segment) hframe
  have hname : new.name = s.name := congrArg (·.name) hframe
  refine ⟨?_, fun t ht => ?_⟩
  · rw [← hd.frames_eq]
    change (d.sections.map _).map _ = _
    rw [List.map_map]
    refine List.map_congr_left fun t ht => ?_
    rw [Function.comp_apply]
    split
    · -- the section that is replaced is the only one with these names
      rename_i hnames
      rw [Bool.and_eq_true, decide_eq_true_iff, decide_eq_true_iff] at hnames
      rw [hframe, hd.eq_of_names ht hs (hnames.1.trans hsegment) (hnames.2.trans hname)]
    · rfl
  · obtain ⟨t, ht', rfl⟩ := List.mem_map.1 ht
    split
    · exact hfixed
    · exact hd.fixedSize_eq t ht'

end Framed

/-- A new draft has code in its first section and nothing in the others. -/
theorem framed_new (cpu : CpuType) (sub : CpuSubtype) : (new cpu sub).Framed := by
  refine ⟨rfl, ?_⟩
  change ∀ s ∈ (new 0 0).sections, s.isZeroFill = false → s.fixedSize = 0
  decide

/-- A step of putting a draft together. -/
inductive Step : Draft → Draft → Prop
  | order (d : Draft) (order : ByteOrder) : Step d { d with order }
  | append {d e : Draft} {segment name bytes : Text} {addr : UInt64}
      (h : Drafting.append segment name bytes d = .ok (addr, e)) : Step d e
  | align {d e : Draft} {segment name : Text} {unit : Int}
      (h : Drafting.align segment name unit d = .ok ((), e)) : Step d e
  | patch {d e : Draft} {segment name bytes : Text} {addr : UInt64}
      (h : Drafting.patch segment name addr bytes d = .ok ((), e)) : Step d e
  | zeroFill {d e : Draft} {size : UInt64} (h : Drafting.zeroFill size d = .ok ((), e)) : Step d e
  | encrypt {d e : Draft} {segment name : Text} {system : UInt32}
      (h : Drafting.encrypt segment name system d = .ok ((), e)) : Step d e
  | addLoad {d e : Draft} {command : Text} (h : Drafting.addLoad command d = .ok ((), e)) : Step d e
  | addUuid {d e : Draft} {uuid : Text} (h : Drafting.addUuid uuid d = .ok ((), e)) : Step d e
  | cstring {d e : Draft} {text : Text} {addr : UInt64}
      (h : Drafting.cstring text d = .ok (addr, e)) : Step d e

/-- The draft was made from a new one, step by step. -/
def Reached (d : Draft) : Prop := ∃ cpu sub, Relation.ReflTransGen Step (new cpu sub) d

end Draft

namespace Drafting

open Draft

/-- Bytes are added behind the contents of a section, as far as its slot reaches. -/
theorem append_eq_ok {segment name bytes : Text} {d e : Draft} {addr : UInt64}
    (h : append segment name bytes d = .ok (addr, e)) :
    ∃ s ∈ d.sections, (s.contents ++ bytes).length ≤ slotSize ∧
      e = d.setSection { s with contents := s.contents ++ bytes } := by
  obtain ⟨s, d', hfind, hwrite⟩ := bind_ok h
  obtain ⟨rfl, hfound⟩ := find_eq_ok hfind
  obtain ⟨hlength, hwrite⟩ := ite_throw_ok hwrite
  obtain ⟨-, rfl⟩ : _ ∧ e = _ := pure_ok hwrite
  exact ⟨s, (mem_of_section?_eq_some hfound).1, Nat.le_of_not_lt hlength, rfl⟩

/-- Padding changes the contents of one section only. -/
theorem align_eq_ok {segment name : Text} {unit : Int} {d e : Draft}
    (h : align segment name unit d = .ok ((), e)) :
    ∃ s ∈ d.sections, ∃ contents, e = d.setSection { s with contents } := by
  obtain ⟨s, d', hfind, hwrite⟩ := bind_ok h
  obtain ⟨rfl, hfound⟩ := find_eq_ok hfind
  obtain ⟨-, hwrite⟩ := ite_throw_ok hwrite
  obtain ⟨-, rfl⟩ : _ ∧ e = _ := pure_ok hwrite
  exact ⟨s, (mem_of_section?_eq_some hfound).1, _, rfl⟩

/-- Overwriting keeps the number of bytes. -/
theorem patch_eq_ok {segment name bytes : Text} {addr : UInt64} {d e : Draft}
    (h : patch segment name addr bytes d = .ok ((), e)) :
    ∃ s ∈ d.sections, ∃ contents, contents.length = s.contents.length ∧
      e = d.setSection { s with contents } := by
  obtain ⟨s, d', hfind, hwrite⟩ := bind_ok h
  obtain ⟨rfl, hfound⟩ := find_eq_ok hfind
  rw [get_bind] at hwrite
  obtain ⟨hplace, hwrite⟩ := ite_throw_ok hwrite
  obtain ⟨-, rfl⟩ : _ ∧ e = _ := pure_ok hwrite
  refine ⟨s, (mem_of_section?_eq_some hfound).1, _, ?_, rfl⟩
  simp only [List.length_append, List.length_take, List.length_drop]
  omega

/-- The size is stated of the section without bytes in the file. -/
theorem zeroFill_eq_ok {size : UInt64} {d e : Draft} (h : zeroFill size d = .ok ((), e)) :
    ∃ s ∈ d.sections, s.segment = Text.ofString "__DATA" ∧ s.name = Text.ofString "__bss" ∧
      e = d.setSection { s with fixedSize := size } := by
  obtain ⟨s, d', hfind, hwrite⟩ := bind_ok h
  obtain ⟨rfl, hfound⟩ := find_eq_ok hfind
  obtain ⟨-, rfl⟩ : _ ∧ e = _ := pure_ok hwrite
  obtain ⟨hs, hsegment, hname⟩ := mem_of_section?_eq_some hfound
  exact ⟨s, hs, hsegment, hname, rfl⟩

/-- A text is known, or added to the section of texts. -/
theorem cstring_eq_ok {text : Text} {d e : Draft} {addr : UInt64}
    (h : cstring text d = .ok (addr, e)) :
    e = d ∨ ∃ f texts, append "__TEXT" "__cstring" (text ++ [0]) d = .ok (addr, f) ∧
      e = { f with texts } := by
  rw [cstring, get_bind] at h
  cases hfound : d.texts.find? fun entry => entry.1 = text with
  -- a text that is already stored is given out again and nothing is written
  | some entry =>
    simp only [hfound] at h
    exact .inl (pure_ok h).2
  | none =>
    simp only [hfound] at h
    obtain ⟨a, f, happend, h⟩ := bind_ok h
    rw [modify_bind] at h
    obtain ⟨rfl, rfl⟩ := pure_ok h
    exact .inr ⟨f, _, happend, rfl⟩

end Drafting

namespace Draft

variable {d e : Draft}

/-- A new draft can be reached. -/
theorem reached_new (cpu : CpuType) (sub : CpuSubtype) : (new cpu sub).Reached :=
  ⟨cpu, sub, .refl⟩

/-- What a step does to the sections: it keeps them, it changes the contents of one of them, or it
states the size of the last one. New contents are within the slot or as long as the old ones, unless
the step is padding. -/
theorem Step.sections_eq (h : Step d e) :
    e.sections = d.sections ∨
    (∃ s ∈ d.sections, ∃ contents : Text,
      e.sections = (d.setSection { s with contents }).sections ∧
      (contents.length ≤ slotSize ∨ contents.length = s.contents.length ∨
        ∃ segment name unit, Drafting.align segment name unit d = .ok ((), e))) ∨
    (∃ s ∈ d.sections, ∃ fixedSize, s.segment = Text.ofString "__DATA" ∧
      s.name = Text.ofString "__bss" ∧
      e.sections = (d.setSection { s with fixedSize }).sections) := by
  cases h with
  | order => exact .inl rfl
  | append h =>
    obtain ⟨s, hs, hlength, rfl⟩ := Drafting.append_eq_ok h
    exact .inr (.inl ⟨s, hs, _, rfl, .inl hlength⟩)
  -- an alignment may make the contents longer than a slot; nothing else may
  | align h =>
    obtain ⟨s, hs, contents, he⟩ := Drafting.align_eq_ok h
    exact .inr (.inl ⟨s, hs, contents, congrArg _ he, .inr (.inr ⟨_, _, _, h⟩)⟩)
  | patch h =>
    obtain ⟨s, hs, contents, hlength, rfl⟩ := Drafting.patch_eq_ok h
    exact .inr (.inl ⟨s, hs, contents, rfl, .inr (.inl hlength)⟩)
  | zeroFill h =>
    obtain ⟨s, hs, hsegment, hname, rfl⟩ := Drafting.zeroFill_eq_ok h
    exact .inr (.inr ⟨s, hs, _, hsegment, hname, rfl⟩)
  | encrypt h =>
    obtain ⟨-, rfl⟩ : _ ∧ e = _ := Drafting.pure_ok h
    exact .inl rfl
  | addLoad h =>
    obtain ⟨-, rfl⟩ : _ ∧ e = _ := Drafting.pure_ok h
    exact .inl rfl
  | addUuid h =>
    obtain ⟨-, rfl⟩ : _ ∧ e = _ := Drafting.pure_ok h
    exact .inl rfl
  -- a text is either known or appended like any other bytes
  | cstring h =>
    rcases Drafting.cstring_eq_ok h with rfl | ⟨f, texts, happend, rfl⟩
    · exact .inl rfl
    · obtain ⟨s, hs, hlength, rfl⟩ := Drafting.append_eq_ok happend
      exact .inr (.inl ⟨s, hs, _, rfl, .inl hlength⟩)

/-- The section without bytes in the file is told by its name. -/
private theorem isZeroFill_bss : ∀ t ∈ emptySections, t.name = Text.ofString "__bss" →
    t.isZeroFill = true := by
  decide

/-- A step keeps the frames of the sections. -/
theorem Step.framed (h : Step d e) (hd : d.Framed) : e.Framed := by
  -- being framed is about the sections alone
  have hof {f : Draft} (hf : f.Framed) (hsections : e.sections = f.sections) : e.Framed :=
    ⟨hsections ▸ hf.frames_eq, hsections ▸ hf.fixedSize_eq⟩
  rcases h.sections_eq with hkept | ⟨s, hs, contents, hnew, -⟩ | ⟨s, hs, size, -, hname, hnew⟩
  · exact hof hd hkept
  · refine hof ?_ hnew
    exact hd.setSection hs rfl (hd.fixedSize_eq s hs)
  · refine hof ?_ hnew
    refine hd.setSection hs rfl fun hfilled => ?_
    -- a size is stated of the last section alone, which has no bytes in the file
    have hzero : s.isZeroFill = true := isZeroFill_bss s.frame (hd.frame_mem hs) hname
    exact absurd hzero (Bool.eq_false_iff.1 hfilled)

/-- However a draft was made, the frames of its sections are those of the empty draft. -/
theorem Reached.framed (h : d.Reached) : d.Framed := by
  obtain ⟨cpu, sub, hsteps⟩ := h
  induction hsteps with
  | refl => exact framed_new cpu sub
  | tail _ hstep ih => exact hstep.framed ih

/-- Of all steps, only padding makes a section longer than its slot. -/
theorem Step.short_or_align (h : Step d e) (hd : ∀ s ∈ d.sections, s.contents.length ≤ slotSize) :
    (∀ s ∈ e.sections, s.contents.length ≤ slotSize) ∨
      ∃ segment name unit, Drafting.align segment name unit d = .ok ((), e) := by
  have hset {new : DraftSection} (hnew : e.sections = (d.setSection new).sections)
      (hlength : new.contents.length ≤ slotSize) :
      ∀ s ∈ e.sections, s.contents.length ≤ slotSize := by
    intro s hs
    rw [hnew] at hs
    obtain ⟨t, ht, rfl⟩ := List.mem_map.1 hs
    split
    · exact hlength
    · exact hd t ht
  rcases h.sections_eq with hkept | ⟨s, hs, contents, hnew, hshort | hsame | halign⟩ |
    ⟨s, hs, size, -, -, hnew⟩
  · exact .inl (hkept ▸ hd)
  · exact .inl (hset hnew hshort)
  · exact .inl (hset hnew (hsame.trans_le (hd s hs)))
  · exact .inr halign
  · exact .inl (hset hnew (hd s hs))

end Draft

namespace Drafting

open Draft Relation

/-- The computation goes from one draft to another step by step. -/
def Stepwise {α : Type} (m : Drafting α) : Prop :=
  ∀ d e a, m d = .ok (a, e) → ReflTransGen Step d e

/-- What is made of steps leads from a draft that can be reached to another one. -/
theorem Stepwise.reached {α : Type} {m : Drafting α} (hm : Stepwise m) {d e : Draft} {a : α}
    (hd : d.Reached) (h : m d = .ok (a, e)) : e.Reached := by
  obtain ⟨cpu, sub, hsteps⟩ := hd
  exact ⟨cpu, sub, hsteps.trans (hm d e a h)⟩

namespace Stepwise

variable {α β : Type}

/-- A single step is made of steps. -/
theorem of_step {m : Drafting α} (h : ∀ {d e a}, m d = .ok (a, e) → Step d e) : Stepwise m :=
  fun _ _ _ hok => .single (h hok)

theorem pure (a : α) : Stepwise (pure a) := by
  intro d e b hok
  obtain ⟨-, rfl⟩ := pure_ok hok
  exact .refl

theorem get : Stepwise get := by
  intro d e a hok
  obtain ⟨-, rfl⟩ : _ ∧ e = d := pure_ok hok
  exact .refl

/-- One sequence of steps may follow another. -/
theorem bind {m : Drafting β} {f : β → Drafting α} (hm : Stepwise m) (hf : ∀ b, Stepwise (f b)) :
    Stepwise (m >>= f) := by
  intro d e a hok
  obtain ⟨b, d', hfirst, hsecond⟩ := bind_ok hok
  exact (hm d d' b hfirst).trans (hf b d' e a hsecond)

theorem ite {c : Prop} [Decidable c] {m n : Drafting α} (hm : Stepwise m) (hn : Stepwise n) :
    Stepwise (if c then m else n) := by
  split
  · exact hm
  · exact hn

/-- The steps for each element of a list may be taken one after the other. -/
theorem mapM {f : β → Drafting α} (hf : ∀ b, Stepwise (f b)) (l : List β) :
    Stepwise (l.mapM f) := by
  induction l with
  | nil => exact pure []
  | cons b l ih =>
    rw [List.mapM_cons]
    exact (hf b).bind fun _ => ih.bind fun _ => pure _

/-- To look for a section takes no step. -/
theorem find (segment name : Text) : Stepwise (find segment name) := by
  intro d e s hok
  obtain ⟨rfl, -⟩ := find_eq_ok hok
  exact .refl

theorem append (segment name bytes : Text) : Stepwise (append segment name bytes) :=
  of_step .append

theorem align (segment name : Text) (unit : Int) : Stepwise (align segment name unit) :=
  of_step .align

theorem cstring (text : Text) : Stepwise (cstring text) := of_step .cstring

theorem words (values : List UInt32) : Stepwise (words values) := get.bind fun _ => pure _

theorem pointers (values : List UInt64) : Stepwise (pointers values) := get.bind fun _ => pure _

/-- To ask for the address of the code takes no step. -/
theorem codeAddr : Stepwise codeAddr := (find _ _).bind fun _ => get.bind fun _ => pure _

theorem record (bytes : Text) : Stepwise (record bytes) :=
  (align _ _ _).bind fun _ => append _ _ _

end Stepwise

/-! ## Records are written step by step -/

/-- A list of methods is made of steps, in every layout. -/
theorem stepwise_methodList (layout : MethodLayout) (ms : List DraftMethod) :
    Stepwise (methodList layout ms) := by
  have haddresses (m : DraftMethod) : Stepwise (addressEntry m) :=
    (Stepwise.cstring _).bind fun _ => (Stepwise.cstring _).bind fun _ =>
      Stepwise.codeAddr.bind fun _ => .pointers _
  have htargets (m : DraftMethod) : Stepwise (distanceTargets layout m) := by
    have htypes (target : UInt64) : Stepwise (do return (target, ← cstring m.types)) :=
      (Stepwise.cstring _).bind fun _ => .pure _
    refine (Stepwise.cstring _).bind fun name => .ite ?_ (htypes name)
    exact (Stepwise.pointers _).bind fun _ => (Stepwise.append _ _ _).bind htypes
  have hdistances (code addr : UInt64) (targets : List (UInt64 × UInt64)) :
      Stepwise (distanceEntries code addr targets) := by
    induction targets generalizing addr with
    | nil => exact .pure []
    | cons target rest ih => exact (Stepwise.words _).bind fun _ => (ih _).bind fun _ => .pure _
  -- no method, records with pointers, records with distances
  refine Stepwise.get.bind fun d => .ite (.pure 0) (.ite ?_ ?_)
  · exact (Stepwise.words _).bind fun _ => (Stepwise.mapM haddresses ms).bind fun _ => .record _
  · refine (Stepwise.mapM htargets ms).bind fun _ => (Stepwise.align _ _ _).bind fun _ => ?_
    refine (Stepwise.find _ _).bind fun _ => Stepwise.get.bind fun _ => ?_
    refine (Stepwise.words _).bind fun _ => Stepwise.codeAddr.bind fun _ => ?_
    exact (hdistances _ _ _).bind fun _ => .append _ _ _

theorem stepwise_ivarList (vs : List DraftIvar) : Stepwise (ivarList vs) := by
  have hoffset (v : DraftIvar) : Stepwise (do record (← words [v.offset, 0])) :=
    (Stepwise.words _).bind fun _ => .record _
  have hentry (entry : DraftIvar × UInt64) : Stepwise (ivarEntry entry) :=
    (Stepwise.cstring _).bind fun _ => (Stepwise.cstring _).bind fun _ =>
      (Stepwise.pointers _).bind fun _ => (Stepwise.words _).bind fun _ => .pure _
  refine .ite (.pure 0) ((Stepwise.mapM hoffset vs).bind fun offsets => ?_)
  refine Stepwise.get.bind fun _ => (Stepwise.words _).bind fun _ => ?_
  exact (Stepwise.mapM hentry (vs.zip offsets)).bind fun _ => .record _

theorem stepwise_propertyList (ps : List DraftProperty) : Stepwise (propertyList ps) := by
  have hentry (p : DraftProperty) : Stepwise (propertyEntry p) :=
    (Stepwise.cstring _).bind fun _ => (Stepwise.cstring _).bind fun _ => .pointers _
  refine .ite (.pure 0) (Stepwise.get.bind fun _ => (Stepwise.words _).bind fun _ => ?_)
  exact (Stepwise.mapM hentry ps).bind fun _ => .record _

theorem stepwise_protocolList (addrs : List UInt64) : Stepwise (protocolList addrs) :=
  .ite (.pure 0) ((Stepwise.pointers _).bind fun _ => .record _)

theorem stepwise_classData (flags : UInt32) (name : Text)
    (methods protocols ivars properties : UInt64) :
    Stepwise (classData flags name methods protocols ivars properties) :=
  Stepwise.get.bind fun _ => (Stepwise.words _).bind fun _ => (Stepwise.cstring _).bind fun _ =>
    (Stepwise.pointers _).bind fun _ => .record _

/-- A class is made of steps. -/
theorem stepwise_addClass (c : DraftClass) : Stepwise (addClass c) := by
  refine (stepwise_methodList _ _).bind fun _ => (stepwise_classData _ _ _ _ _ _).bind fun _ => ?_
  refine (stepwise_methodList _ _).bind fun _ => (stepwise_protocolList _).bind fun _ => ?_
  refine (stepwise_ivarList _).bind fun _ => (stepwise_propertyList _).bind fun _ => ?_
  refine (stepwise_classData _ _ _ _ _ _).bind fun _ => (Stepwise.align _ _ _).bind fun _ => ?_
  refine (Stepwise.pointers _).bind fun _ => (Stepwise.append _ _ _).bind fun _ => ?_
  refine (Stepwise.pointers _).bind fun _ => (Stepwise.append _ _ _).bind fun _ => ?_
  refine .ite ?_ (.pure _)
  exact (Stepwise.pointers _).bind fun _ => (Stepwise.append _ _ _).bind fun _ => .pure _

/-- A protocol is made of steps. -/
theorem stepwise_addProtocol (p : DraftProtocol) : Stepwise (addProtocol p) := by
  unfold addProtocol
  extract_lets rest
  -- the table of extended signatures is written in front of everything else, if there is one
  have hrest (extended : UInt64) : Stepwise (rest extended) := by
    refine (Stepwise.cstring _).bind fun _ => (stepwise_protocolList _).bind fun _ => ?_
    refine (stepwise_methodList _ _).bind fun _ => (stepwise_methodList _ _).bind fun _ => ?_
    refine (stepwise_methodList _ _).bind fun _ => (stepwise_propertyList _).bind fun _ => ?_
    refine Stepwise.get.bind fun _ => (Stepwise.pointers _).bind fun _ => ?_
    refine (Stepwise.words _).bind fun _ => (Stepwise.pointers _).bind fun _ => ?_
    refine (Stepwise.align _ _ _).bind fun _ => (Stepwise.append _ _ _).bind fun _ => ?_
    refine (Stepwise.pointers _).bind fun _ => (Stepwise.append _ _ _).bind fun _ => .pure _
  refine .ite ((Stepwise.pure 0).bind hrest) ?_
  refine (Stepwise.mapM Stepwise.cstring _).bind fun _ => (Stepwise.pointers _).bind fun _ => ?_
  exact (Stepwise.record _).bind hrest

/-- A category is made of steps. -/
theorem stepwise_addCategory (c : DraftCategory) : Stepwise (addCategory c) := by
  refine (Stepwise.cstring _).bind fun _ => (stepwise_methodList _ _).bind fun _ => ?_
  refine (stepwise_methodList _ _).bind fun _ => (stepwise_protocolList _).bind fun _ => ?_
  refine (stepwise_propertyList _).bind fun _ => (Stepwise.pointers _).bind fun _ => ?_
  refine (Stepwise.record _).bind fun _ => (Stepwise.pointers _).bind fun _ => ?_
  exact (Stepwise.append _ _ _).bind fun _ => .pure _

theorem stepwise_imageInfo (flags : UInt32) : Stepwise (imageInfo flags) :=
  (Stepwise.words _).bind fun _ => (Stepwise.append _ _ _).bind fun _ => .pure _

end Drafting

end ObjcLens
