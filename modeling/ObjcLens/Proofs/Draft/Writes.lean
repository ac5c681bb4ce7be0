import Mathlib
import ObjcLens.Proofs.Draft.Context

/-!
# What steps of drafting write

A step of drafting writes records that are found again in the image of every later draft. `Writes`
says so of a step: the draft only grows, and the value of the step is related to whatever context
shows the draft or a later one. What one step writes may be used for the steps behind it.

## Main results

* `Writes.bind`, `Writes.mapM`: steps that are put together.
* `Writes.cstring`, `Writes.record`, `Writes.append`: texts and records are at the addresses that
  are returned.
-/

namespace ObjcLens

/-- The property holds in every context that shows the draft or a later one. -/
def Draft.Tells (d : Draft) (P : Context → Prop) : Prop :=
  ∀ e context, d.Extends e → context.Shows e → P context

section Tells

variable {d e : Draft} {P Q : Context → Prop}

/-- What a draft tells, every later draft tells. -/
theorem Draft.Tells.mono (h : d.Tells P) (hextends : d.Extends e) : e.Tells P :=
  fun f context hf hcontext => h f context (hextends.trans hf) hcontext

/-- What is told of a draft may be weakened. -/
theorem Draft.Tells.imp (h : d.Tells P) (himp : ∀ context, P context → Q context) : d.Tells Q :=
  fun f context hf hcontext => himp context (h f context hf hcontext)

/-- Bytes of a draft are found in every later context. -/
theorem Draft.HasBytes.tells {addr : UInt64} {bytes : Text} (h : d.HasBytes addr bytes) :
    d.Tells (·.HasBytes addr bytes) :=
  fun f _ hf hcontext => ⟨f, hcontext, h.mono hf⟩

end Tells

/-- The address of the code of every method. -/
def Context.code (context : Context) : UInt64 := context.base + 0x1000

/-- The code begins one slot behind the base. -/
theorem Context.toNat_code (context : Context) :
    context.code.toNat = context.base.toNat + 0x1000 := by
  rw [code, base]
  split <;> rfl

theorem Context.near_code (context : Context) : context.Near context.code :=
  ⟨0x1000, by decide, context.toNat_code⟩

namespace Drafting

open Draft

/-- The step only adds records, and its value has the property in every later context. -/
def Writes {α : Type} (m : Drafting α) (Q : α → Context → Prop) : Prop :=
  ∀ d e a, d.Regular → m d = .ok (a, e) → d.Grows e ∧ e.Tells (Q a)

namespace Writes

section Combinators

variable {α β : Type} {Q R : α → Context → Prop}

/-- A value that is given without a step is in the image if it is in every image. -/
theorem pure {a : α} (h : ∀ context, Q a context) : Writes (pure a) Q := by
  intro d e b hd hok
  obtain ⟨rfl, rfl⟩ := pure_ok hok
  exact ⟨Grows.refl hd, fun _ context _ _ => h context⟩

/-- What is said of the bytes that are written may be weakened. -/
theorem imp {m : Drafting α} (h : Writes m Q) (himp : ∀ a context, Q a context → R a context) :
    Writes m R := by
  intro d e a hd hok
  obtain ⟨hgrows, htells⟩ := h d e a hd hok
  exact ⟨hgrows, htells.imp (himp a)⟩

/-- What the first step writes is still there when the second one is done. -/
theorem bind {m : Drafting β} {f : β → Drafting α} {P : β → Context → Prop} (hm : Writes m P)
    (hf : ∀ b, Writes (f b) fun a context => P b context → Q a context) : Writes (m >>= f) Q := by
  intro d e a hd hok
  obtain ⟨b, d', hfirst, hsecond⟩ := bind_ok hok
  obtain ⟨hgrows, htells⟩ := hm d d' b hd hfirst
  obtain ⟨hgrows', htells'⟩ := hf b d' e a hgrows.regular hsecond
  refine ⟨hgrows.trans hgrows', fun later context hlater hcontext => ?_⟩
  exact htells' later context hlater hcontext
    (htells.mono hgrows'.toExtends later context hlater hcontext)

/-- A list of steps writes what each of them writes. -/
theorem mapM {f : β → Drafting α} {P : β → α → Context → Prop} (l : List β)
    (hf : ∀ b ∈ l, Writes (f b) (P b)) :
    Writes (l.mapM f) fun as context => List.Forall₂ (fun b a => P b a context) l as := by
  induction l with
  | nil => exact pure fun _ => List.Forall₂.nil
  | cons b l ih =>
    rw [List.forall_mem_cons] at hf
    rw [List.mapM_cons]
    refine (hf.1).bind fun a => (ih hf.2).bind fun as => pure fun context => ?_
    exact fun hrest hfirst => List.Forall₂.cons hfirst hrest

end Combinators

/-- The draft at hand has the pointers of the image. -/
theorem get : Writes get fun d context => context.image.is64 = d.is64 := by
  intro d e a hd hok
  obtain ⟨rfl, rfl⟩ : a = d ∧ e = d := by
    have hok : Except.ok (d, d) = Except.ok (a, e) := hok
    simpa [eq_comm] using hok
  refine ⟨Grows.refl hd, fun later context hlater hcontext => ?_⟩
  exact hcontext.image.is64_eq.trans hlater.is64_eq

/-- Words are written in the byte order of the image. -/
theorem words (values : List UInt32) :
    Writes (words values) fun bytes context => bytes = context.words values := by
  intro d e bytes hd hok
  obtain ⟨rfl, rfl⟩ : bytes = d.words values ∧ e = d := pure_ok hok
  refine ⟨Grows.refl hd, fun later context hlater hcontext => ?_⟩
  rw [← hlater.words_eq, hcontext.words_eq]

/-- Pointers are written in the width of the image. -/
theorem pointers (values : List UInt64) :
    Writes (pointers values) fun bytes context => bytes = context.pointers values := by
  intro d e bytes hd hok
  obtain ⟨rfl, rfl⟩ : bytes = d.pointers values ∧ e = d := pure_ok hok
  refine ⟨Grows.refl hd, fun later context hlater hcontext => ?_⟩
  rw [← hlater.pointers_eq, hcontext.pointers_eq]

/-- A text is at the address that is returned. -/
theorem cstring (text : Text) :
    Writes (cstring text) fun addr context => context.HasBytes addr (text ++ [0]) := by
  intro d e addr hd hok
  obtain ⟨hgrows, hbytes⟩ := cstring_ok hd hok
  exact ⟨hgrows, hbytes.tells⟩

/-- A record is at the address that is returned, which is a multiple of eight. -/
theorem record (bytes : Text) :
    Writes (record bytes) fun addr context =>
      context.HasBytes addr bytes ∧ addr.toNat % 8 = 0 := by
  intro d e addr hd hok
  obtain ⟨hgrows, hbytes, index, rfl, hmod⟩ := record_ok hd hok
  refine ⟨hgrows, hbytes.tells.imp fun context h => ⟨h, ?_⟩⟩
  have hbase : d.base.toNat % 8 = 0 := by
    rw [base]
    split <;> rfl
  have hslot : (9 * slotSize).toUInt64.toNat = 0x9000 := rfl
  have hindex : index.toUInt64.toNat = index % 2 ^ 64 := rfl
  rw [place, UInt64.toNat_add, UInt64.toNat_add, hslot, hindex]
  omega

/-- Bytes that are added to a section are at the address that is returned. -/
theorem append {segment name : Text} {slot : Nat} (hsection : slotOf? segment name = some slot)
    (hslot : slot ∈ [2, 8, 9, 10]) (bytes : Text) :
    Writes (append segment name bytes) fun addr context => context.HasBytes addr bytes := by
  intro d e addr hd hok
  obtain ⟨hgrows, hbytes, -⟩ := append_grows hsection hslot hd hok
  exact ⟨hgrows, hbytes.tells⟩

/-- Padding keeps what was written and promises nothing of its own. -/
theorem align {segment name : Text} {slot : Nat} (hsection : slotOf? segment name = some slot)
    (hslot : slot ∈ [2, 8, 9, 10]) : Writes (align segment name 8) fun _ _ => True := by
  intro d e _ hd hok
  exact ⟨(align_grows hsection hslot hd hok).1, fun _ _ _ _ => trivial⟩

/-- The address of the code is the one that a reader computes. -/
theorem codeAddr : Writes codeAddr fun addr context => addr = context.code := by
  intro d e addr hd hok
  obtain ⟨rfl, rfl⟩ := codeAddr_ok hd hok
  refine ⟨Grows.refl hd, fun later context hlater hcontext => ?_⟩
  rw [place, ← hlater.base_eq, hcontext.base_eq]
  exact UInt64.add_zero _

end Writes

/-- The step adds records and lists its address if it is to be listed. The value has the property
in every later context. -/
def Adds (m : Drafting UInt64) (slot : Nat) (listed : Bool) (Q : UInt64 → Context → Prop) : Prop :=
  ∀ d e addr, d.Regular → m d = .ok (addr, e) →
    d.Lists e slot (if listed then d.pointers [addr] else []) ∧ e.Tells (Q addr)

namespace Adds

variable {slot : Nat} {Q : UInt64 → Context → Prop}

/-- Records may be written before the address is listed. -/
theorem bind {α : Type} {m : Drafting α} {f : α → Drafting UInt64} {P : α → Context → Prop}
    {listed : Bool} (hm : Writes m P)
    (hf : ∀ b, Adds (f b) slot listed fun addr context => P b context → Q addr context) :
    Adds (m >>= f) slot listed Q := by
  intro d e addr hd hok
  obtain ⟨b, d', hfirst, hsecond⟩ := bind_ok hok
  obtain ⟨hgrows, htells⟩ := hm d d' b hd hfirst
  obtain ⟨hlists, htells'⟩ := hf b d' e addr hgrows.regular hsecond
  rw [hgrows.toExtends.pointers_eq] at hlists
  refine ⟨hgrows.trans_lists hlists, fun later context hlater hcontext => ?_⟩
  exact htells' later context hlater hcontext
    (htells.mono hlists.toExtends later context hlater hcontext)

/-- The address is listed, or it is not. -/
theorem list {segment name : Text} (hsection : slotOf? segment name = some slot)
    (hslot : slot ∈ [4, 5, 6, 7]) {addr : UInt64} (listed : Bool) (h : ∀ context, Q addr context) :
    Adds (if listed = true then do
        let _ ← append segment name (← Drafting.pointers [addr])
        return addr
      else return addr) slot listed Q := by
  intro d e a hd hok
  cases listed with
  | false =>
    obtain ⟨rfl, rfl⟩ := pure_ok hok
    exact ⟨(Grows.refl hd).lists slot, fun _ context _ _ => h context⟩
  | true =>
    obtain ⟨bytes, d', hpointers, hok⟩ := bind_ok hok
    obtain ⟨rfl, rfl⟩ : bytes = d.pointers [addr] ∧ d' = d := pure_ok hpointers
    obtain ⟨_, d'', happend, hok⟩ := bind_ok hok
    obtain ⟨rfl, rfl⟩ := pure_ok hok
    exact ⟨append_lists hsection hslot hd happend, fun _ context _ _ => h context⟩

end Adds

end Drafting

end ObjcLens
