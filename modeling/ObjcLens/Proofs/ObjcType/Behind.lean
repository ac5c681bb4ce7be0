import Mathlib
import ObjcLens.Proofs.ObjcType.Follow

/-!
# Readers that stop in front of other text

Two readers read alike if what the first one reads in front of some text is what the second one
reads in front of other text. Readers that look ahead do so only where the text that they leave
settles what they look for: when two of them are combined, the second one has to succeed only
where the first one is settled.

## Main results

* `ReadsAlike.bind`, `ReadsAlike.uncons`, `ReadsAlike.peek`: readers that read alike are combined.
* `ReadsAlike.readNumber`, `ReadsAlike.readTag`, `ReadsAlike.readMemberName`,
  `ReadsAlike.readWidth`: the parts of a type that are no types.
* `ReadsAlike.readUntil`: items up to a closing byte.
-/

namespace ObjcLens

/-- The first reader leaves a part of its text. What it reads in front of `before` is what the
second one reads in front of `after`, wherever the text between is settled. -/
structure ReadsAlike {α : Type} (before after : Text) (settled : α → Text → Prop)
    (f g : Text → Option (α × Text)) : Prop where
  /-- The first reader leaves the end of its text. -/
  suffix : ∀ {s x rest}, f s = some (x, rest) → rest <:+ s
  /-- What is behind the settled text makes no difference. -/
  swap : ∀ {s x rest}, settled x rest → f (s ++ before) = some (x, rest ++ before) →
    g (s ++ after) = some (x, rest ++ after)

/-- The reader takes at least a byte. -/
def TakesByte {α : Type} (f : Text → Option (α × Text)) : Prop :=
  ∀ s x rest, f s = some (x, rest) → rest.length < s.length

variable {α β : Type} {before after : Text}

/-- Where a reader leaves the text behind, it takes the byte in front of it. -/
theorem TakesByte.ne_nil {f : Text → Option (α × Text)} (hf : TakesByte f) {s : Text} {x : α}
    {rest : Text} (h : f (s ++ before) = some (x, rest ++ before)) : s ≠ [] := by
  have hlength := hf _ _ _ h
  rw [List.length_append, List.length_append] at hlength
  exact List.length_pos_iff.1 (by omega)

/-- A reader that takes a byte, and another one behind it. -/
theorem TakesByte.bind {f : Text → Option (α × Text)} (hf : TakesByte f)
    {g : α → Text → Option (β × Text)}
    (hg : ∀ x {s y rest}, g x s = some (y, rest) → rest <:+ s) :
    TakesByte fun s => f s >>= fun p => g p.1 p.2 := by
  intro s y rest h
  obtain ⟨⟨x, middle⟩, hx, hy⟩ := Option.bind_eq_some_iff.1 h
  exact (hg x hy).length_le.trans_lt (hf s x middle hx)

/-- A reader that takes a byte and leaves the end of the text behind it. -/
theorem TakesByte.uncons {g : UInt8 → Text → Option (α × Text)}
    (h : ∀ c {s x rest}, g c s = some (x, rest) → rest <:+ s) :
    TakesByte fun s => match s with
      | [] => none
      | c :: rest => g c rest := by
  intro s x rest hs
  cases s with
  | nil => cases hs
  | cons c s => exact Nat.lt_succ_of_le (h c hs).length_le

namespace ObjcType

/-- The text starts with a width. -/
def StartsWithWidth (s : Text) : Prop :=
  ∃ digits, s = byte ':' :: digits ∧ ¬ StartsNot Text.isDigit digits

/-- A width is the number behind a colon. -/
theorem readWidth_of_digit {digits : Text} (h : ¬ StartsNot Text.isDigit digits) :
    readWidth (byte ':' :: digits) =
      ((readNumber digits).1.getD 0, (readNumber digits).2) := by
  cases digits with
  | nil => exact absurd (StartsNot.nil _) h
  | cons d digits =>
    have hd : Text.isDigit d = true := by simpa [StartsNot] using h
    simp [readWidth, hd]

/-- Without a width nothing is read. -/
theorem readWidth_of_not {s : Text} (h : ¬ StartsWithWidth s) :
    readWidth s = (0, s) := by
  rcases s with - | ⟨c, - | ⟨d, s⟩⟩
  · rfl
  · rfl
  · rw [readWidth, if_neg]
    intro hcolon
    rw [Bool.and_eq_true, decide_eq_true_eq] at hcolon
    refine h ⟨d :: s, by rw [hcolon.1], ?_⟩
    simpa [StartsNot] using hcolon.2

end ObjcType

namespace ReadsAlike

variable {settled : α → Text → Prop}

/-- A reader that settles in one sense settles in every weaker one. -/
theorem mono {weaker : α → Text → Prop} {f g : Text → Option (α × Text)}
    (h : ReadsAlike before after weaker f g)
    (hweaker : ∀ {x rest}, settled x rest → weaker x rest) :
    ReadsAlike before after settled f g :=
  ⟨h.suffix, fun hrest => h.swap (hweaker hrest)⟩

/-- Only the results of the two readers matter, not how they are written. -/
theorem congr {f f' g g' : Text → Option (α × Text)} (h : ReadsAlike before after settled f g)
    (hf : ∀ s, f' s = f s) (hg : ∀ s, g' s = g s) : ReadsAlike before after settled f' g' := by
  obtain rfl : f' = f := funext hf
  obtain rfl : g' = g := funext hg
  exact h

/-- Reading nothing. -/
protected theorem pure (x : α) :
    ReadsAlike before after settled (fun s => some (x, s)) fun s => some (x, s) where
  suffix {s y rest} h := by
    obtain ⟨-, rfl⟩ : x = y ∧ s = rest := by simpa using h
    exact List.suffix_rfl
  swap {s y rest} _ h := by
    obtain ⟨rfl, rfl⟩ : x = y ∧ s = rest := by simpa using h
    rfl

/-- A reader that reads nothing is matched by any other. -/
protected theorem none (g : Text → Option (α × Text)) :
    ReadsAlike before after settled (fun _ => none) g := by
  constructor <;> simp

/-- Two readers one after the other. The second one has to settle the first. -/
protected theorem bind {settled : β → Text → Prop} {between : α → Text → Prop}
    {f f' : Text → Option (α × Text)} {g g' : α → Text → Option (β × Text)}
    (hf : ReadsAlike before after between f f')
    (hg : ∀ x, ReadsAlike before after settled (g x) (g' x))
    (hbetween : ∀ {x kept y rest}, settled y rest →
      g x (kept ++ before) = some (y, rest ++ before) → between x kept) :
    ReadsAlike before after settled (fun s => f s >>= fun p => g p.1 p.2)
      (fun s => f' s >>= fun p => g' p.1 p.2) where
  suffix {s y rest} h := by
    obtain ⟨⟨x, middle⟩, hx, hy⟩ := Option.bind_eq_some_iff.1 h
    exact ((hg x).suffix hy).trans (hf.suffix hx)
  swap {s y rest} hrest h := by
    obtain ⟨⟨x, middle⟩, hx, hy⟩ := Option.bind_eq_some_iff.1 h
    -- what the first reader leaves ends with `before`, as what is left in the end does
    obtain ⟨kept, rfl⟩ : ∃ kept, kept ++ before = middle :=
      (List.suffix_append rest before).trans ((hg x).suffix hy)
    exact Option.bind_eq_some_iff.2
      ⟨(x, kept ++ after), hf.swap (hbetween hrest hy) hx, (hg x).swap hrest hy⟩

/-- A reader and what is made of its result. -/
protected theorem map {settled : β → Text → Prop} {between : α → Text → Prop}
    {f f' : Text → Option (α × Text)} (hf : ReadsAlike before after between f f') (g : α → β)
    (hbetween : ∀ {x rest}, settled (g x) rest → between x rest) :
    ReadsAlike before after settled (fun s => f s >>= fun p => some (g p.1, p.2))
      (fun s => f' s >>= fun p => some (g p.1, p.2)) :=
  hf.bind (fun x => ReadsAlike.pure (g x)) fun {x kept y rest} hrest h => by
    obtain ⟨rfl, rfl⟩ : g x = y ∧ kept = rest := by simpa using h
    exact hbetween hrest

/-- A reader that takes one byte and goes on by it. It takes none of the text behind, because it
would not leave it. -/
theorem uncons {g g' : UInt8 → Text → Option (α × Text)}
    (h : ∀ c, ReadsAlike before after settled (g c) (g' c)) :
    ReadsAlike before after settled
      (fun s => match s with
        | [] => none
        | c :: rest => g c rest)
      (fun s => match s with
        | [] => none
        | c :: rest => g' c rest) where
  suffix {s x rest} hs := by
    cases s with
    | nil => cases hs
    | cons c s => exact ((h c).suffix hs).trans (List.suffix_cons c s)
  swap {s x rest} hrest hs := by
    cases s with
    | nil => exact absurd rfl (TakesByte.ne_nil (TakesByte.uncons fun c => (h c).suffix) hs)
    | cons c s => exact (h c).swap hrest hs

/-- A choice by the first byte, which is taken if it is the mark. Where nothing is taken, the text
behind must not start with the mark. -/
theorem peek {mark : UInt8} {f f' g g' : Text → Option (α × Text)}
    (hf : ReadsAlike before after settled f f') (hg : ReadsAlike before after settled g g')
    (hmark : ∀ {x}, settled x [] → g before = some (x, before) → after.head? ≠ some mark) :
    ReadsAlike before after settled (fun s => if s.head? = some mark then f (s.drop 1) else g s)
      (fun s => if s.head? = some mark then f' (s.drop 1) else g' s) where
  suffix {s x rest} h := by
    split at h
    · exact (hf.suffix h).trans (List.drop_suffix 1 s)
    · exact hg.suffix h
  swap {s x rest} hrest h := by
    cases s with
    | nil =>
      rw [List.nil_append] at h ⊢
      split at h
      · rename_i hhead
        obtain ⟨tail, rfl⟩ := List.head?_eq_some_iff.1 hhead
        have hlength := (hf.suffix h).length_le
        simp only [List.drop_one, List.tail_cons, List.length_append, List.length_cons] at hlength
        omega
      · have hnil : rest = [] := by
          have hlength := (hg.suffix h).length_le
          rw [List.length_append] at hlength
          exact List.length_eq_zero_iff.1 (by omega)
        subst hnil
        rw [if_neg (hmark hrest h)]
        exact hg.swap (s := []) hrest h
    | cons c s =>
      rw [List.cons_append, List.head?_cons] at h ⊢
      split at h
      · rw [if_pos ‹_›]
        exact hf.swap hrest h
      · rw [if_neg ‹_›]
        exact hg.swap (s := c :: s) hrest h

/-- A choice by the text that is read, of which at least a byte is taken. -/
theorem look {γ : Type} (key : Text → γ)
    (hkey : ∀ c s, key (c :: s ++ before) = key (c :: s ++ after))
    {f f' : γ → Text → Option (α × Text)} (h : ∀ k, ReadsAlike before after settled (f k) (f' k))
    (htakes : ∀ k, TakesByte (f k)) :
    ReadsAlike before after settled (fun s => f (key s) s) (fun s => f' (key s) s) where
  suffix hs := (h _).suffix hs
  swap {s x rest} hrest hs := by
    cases s with
    | nil => exact absurd rfl ((htakes _).ne_nil hs)
    | cons c s =>
      rw [← hkey c s]
      exact (h _).swap hrest hs

/-- A run of bytes of one kind ends where other text starts, or where nothing of the kind is
behind it. -/
private theorem span_swap {p : UInt8 → Bool} {s rest : Text}
    (h : (s ++ before).dropWhile p = rest ++ before) (hrest : rest = [] → StartsNot p after) :
    (s ++ after).takeWhile p = (s ++ before).takeWhile p ∧
      (s ++ after).dropWhile p = rest ++ after := by
  have hrun : ∀ b ∈ (s ++ before).takeWhile p, p b = true := fun _ hb => List.mem_takeWhile_imp hb
  have hsplit : (s ++ before).takeWhile p ++ rest = s := by
    have htogether := List.takeWhile_append_dropWhile (p := p) (l := s ++ before)
    rw [h, ← List.append_assoc] at htogether
    exact List.append_cancel_right htogether
  -- a byte that is left in front of `before` has ended the run
  have hstart : StartsNot p (rest ++ after) := by
    cases rest with
    | nil => exact hrest rfl
    | cons c rest =>
      have hhead := List.head?_dropWhile_not p (s ++ before)
      rw [h] at hhead
      exact StartsNot.cons (by simpa using hhead) _
  have hspan := takeWhile_append_of_startsNot hrun hstart
  rwa [← List.append_assoc, hsplit] at hspan

/-- A run of bytes of one kind. -/
theorem span {p : UInt8 → Bool} :
    ReadsAlike before after (fun _ rest => rest = [] → StartsNot p after)
      (fun s => some (s.takeWhile p, s.dropWhile p))
      fun s => some (s.takeWhile p, s.dropWhile p) where
  suffix {s run rest} h := by
    obtain ⟨-, rfl⟩ : _ ∧ s.dropWhile p = rest := by simpa using h
    exact List.dropWhile_suffix p
  swap {s run rest} hrest h := by
    obtain ⟨rfl, hdrop⟩ : (s ++ before).takeWhile p = run ∧
        (s ++ before).dropWhile p = rest ++ before := by simpa using h
    obtain ⟨htake, hdrop⟩ := span_swap hdrop hrest
    rw [htake, hdrop]

/-- The digits of a number end like any run of bytes. -/
private theorem readNumber_swap {s rest : Text} {value : Option Nat}
    (hrest : rest = [] → StartsNot Text.isDigit after)
    (h : readNumber (s ++ before) = (value, rest ++ before)) :
    readNumber (s ++ after) = (value, rest ++ after) := by
  obtain ⟨hvalue, hdrop⟩ := Prod.mk.inj h
  obtain ⟨htake, hdrop⟩ := span_swap hdrop hrest
  rw [← hvalue, readNumber, htake, hdrop]

/-- A number. -/
protected theorem readNumber :
    ReadsAlike before after (fun _ rest => rest = [] → StartsNot Text.isDigit after)
      (fun s => some (readNumber s)) fun s => some (readNumber s) where
  suffix {s value rest} h := by
    obtain rfl : s.dropWhile Text.isDigit = rest := (Prod.mk.inj (Option.some.inj h)).2
    exact List.dropWhile_suffix _
  swap hrest h := congrArg some (readNumber_swap hrest (Option.some.inj h))

/-- The name of an aggregate. The mark that ends it is left. -/
protected theorem readTag (closer : UInt8) (depth : Int) :
    ReadsAlike before after (fun _ rest => rest ≠ []) (ObjcType.readTag closer depth)
      (ObjcType.readTag closer depth) where
  suffix {s name rest} h := by
    obtain ⟨rfl, -⟩ := ObjcType.eq_append_of_readTag h
    exact List.suffix_append name rest
  swap {s name rest} hrest h := by
    obtain ⟨hs, hname, c, tail, hc, hend⟩ := ObjcType.eq_append_of_readTag h
    obtain ⟨d, rest, rfl⟩ := List.exists_cons_of_ne_nil hrest
    obtain rfl : d = c := (List.cons.inj hc).1
    rw [← List.append_assoc, List.append_cancel_right_eq] at hs
    rw [hs, List.append_assoc]
    exact ObjcType.readTag_append hname hend (rest ++ after)

/-- The name in front of a member. -/
protected theorem readMemberName :
    ReadsAlike before after (fun _ rest => rest ≠ []) ObjcType.readMemberName
      ObjcType.readMemberName := by
  have hcut : ReadsAlike before after (fun _ rest => rest ≠ []) (Text.cut? (byte '"'))
      (Text.cut? (byte '"')) := by
    refine ⟨fun {s name rest} h => ?_, fun {s name rest} _ h => ?_⟩
    · obtain ⟨rfl, -⟩ := Text.eq_append_of_cut? h
      exact (List.suffix_cons _ rest).trans (List.suffix_append name _)
    · obtain ⟨hs, hname⟩ := Text.eq_append_of_cut? h
      rw [← List.cons_append, ← List.append_assoc, List.append_cancel_right_eq] at hs
      rw [hs, List.append_assoc]
      exact Text.cut?_append hname (rest ++ after)
  -- the function by its first byte, which is all that it looks at before it reads on
  have hname : ObjcType.readMemberName = fun s =>
      if s.head? = some (byte '"') then Text.cut? (byte '"') (s.drop 1) else some ([], s) := by
    funext s
    cases s <;> simp [ObjcType.readMemberName]
  rw [hname]
  exact peek hcut (ReadsAlike.pure []) fun hrest => absurd rfl hrest

/-- The width of a member. A colon at the end of the text might be the start of a width. -/
protected theorem readWidth :
    ReadsAlike before after (fun _ rest => rest ≠ [] ∧ rest ≠ [byte ':'])
      (fun s => some (ObjcType.readWidth s)) fun s => some (ObjcType.readWidth s) where
  suffix {s width rest} h := by
    obtain rfl : (ObjcType.readWidth s).2 = rest := (Prod.mk.inj (Option.some.inj h)).2
    by_cases hwidth : ObjcType.StartsWithWidth s
    · obtain ⟨digits, rfl, hd⟩ := hwidth
      rw [ObjcType.readWidth_of_digit hd]
      exact (List.dropWhile_suffix Text.isDigit).trans (List.suffix_cons _ digits)
    · rw [ObjcType.readWidth_of_not hwidth]
  swap {s width rest} hrest h := by
    rw [Option.some.injEq] at h ⊢
    by_cases hwidth : ObjcType.StartsWithWidth (s ++ before)
    · obtain ⟨digits, hs, hd⟩ := hwidth
      rw [hs, ObjcType.readWidth_of_digit hd] at h
      obtain ⟨hvalue, hleft⟩ := Prod.mk.inj h
      have hlength : (rest ++ before).length ≤ digits.length := by
        rw [← hleft]
        exact (List.dropWhile_suffix Text.isDigit).length_le
      have hlonger := congrArg List.length hs
      have hpos := List.length_pos_iff.2 hrest.1
      rw [List.length_append, List.length_cons] at hlonger
      rw [List.length_append] at hlength
      rcases s with - | ⟨c, - | ⟨d, s⟩⟩
      · rw [List.length_nil] at hlonger
        omega
      · rw [List.length_singleton] at hlonger
        omega
      · obtain ⟨rfl, rfl⟩ := List.cons.inj hs
        have hd' : ¬ StartsNot Text.isDigit (d :: s ++ after) := by simpa [StartsNot] using hd
        have hnumber : readNumber (d :: s ++ after) =
            ((readNumber (d :: s ++ before)).1, rest ++ after) :=
          readNumber_swap (fun hnil => absurd hnil hrest.1) (Prod.ext rfl hleft)
        rw [List.cons_append, ObjcType.readWidth_of_digit hd', hnumber]
        exact Prod.ext hvalue rfl
    · rw [ObjcType.readWidth_of_not hwidth] at h
      obtain ⟨rfl, hs⟩ := Prod.mk.inj h
      obtain rfl : s = rest := List.append_cancel_right hs
      refine ObjcType.readWidth_of_not ?_
      rintro ⟨digits, hcolon, hd⟩
      refine hwidth ?_
      obtain ⟨c, s, rfl⟩ := List.exists_cons_of_ne_nil hrest.1
      obtain ⟨rfl, rfl⟩ := List.cons.inj hcolon
      refine ⟨s ++ before, rfl, ?_⟩
      cases s with
      | nil => exact absurd rfl hrest.2
      | cons d s => simpa [StartsNot] using hd

/-- Items up to a closing byte end with that byte. -/
theorem cons_suffix_of_readUntil {closer : UInt8} {item : Text → Option (α × Text)}
    (hsuffix : ∀ {s x rest}, item s = some (x, rest) → rest <:+ s) {fuel : Nat} {s : Text}
    {xs : List α} {rest : Text} (h : ObjcType.readUntil closer item fuel s = some (xs, rest)) :
    closer :: rest <:+ s := by
  induction fuel generalizing s xs with
  | zero => cases h
  | succ fuel ih =>
    cases s with
    | nil => cases h
    | cons c s =>
      rw [ObjcType.readUntil] at h
      split at h
      · rename_i hc
        obtain ⟨-, rfl⟩ : _ ∧ s = rest := by simpa using h
        rw [hc]
      · obtain ⟨⟨x, s'⟩, hx, hmore⟩ := Option.bind_eq_some_iff.1 h
        obtain ⟨⟨ys, s''⟩, hys, heq⟩ := Option.bind_eq_some_iff.1 hmore
        obtain ⟨-, rfl⟩ : _ ∧ s'' = rest := by simpa using heq
        exact (ih hys).trans (hsuffix hx)

/-- What is read up to a closing byte is not all behind the text. -/
theorem length_lt_of_readUntil {closer : UInt8} {item : Text → Option (α × Text)}
    (hsuffix : ∀ {s x rest}, item s = some (x, rest) → rest <:+ s) {fuel : Nat} {s : Text}
    {xs : List α} {rest : Text}
    (h : ObjcType.readUntil closer item fuel (s ++ before) = some (xs, rest ++ before)) :
    rest.length < s.length := by
  have hlength := (cons_suffix_of_readUntil hsuffix h).length_le
  simp only [List.length_cons, List.length_append] at hlength
  omega

/-- Items up to a closing byte, each of which takes a byte and is settled by what follows it. The
induction is on the fuel of the first reader; the second one needs as much fuel as there is text
in front of `after`. -/
private theorem readUntil_swap {closer : UInt8} {item item' : Text → Option (α × Text)}
    {fits : α → Prop} {between : α → Text → Prop}
    (hitem : ReadsAlike before after between item item') (htakes : TakesByte item)
    (hbetween : ∀ {x fuel kept xs rest}, fits x →
      ObjcType.readUntil closer item fuel (kept ++ before) = some (xs, rest ++ before) →
        between x kept)
    {fuel fuel' : Nat} {s : Text} (hfuel : s.length ≤ fuel') {xs : List α} {rest : Text}
    (hfits : ∀ x ∈ xs, fits x)
    (h : ObjcType.readUntil closer item fuel (s ++ before) = some (xs, rest ++ before)) :
    ObjcType.readUntil closer item' fuel' (s ++ after) = some (xs, rest ++ after) := by
  induction fuel generalizing s fuel' xs with
  | zero => cases h
  | succ fuel ih =>
    cases s with
    | nil => exact absurd (length_lt_of_readUntil hitem.suffix h) (Nat.not_lt_zero _)
    | cons c s =>
      obtain ⟨fuel', rfl⟩ : ∃ n, fuel' = n + 1 :=
        ⟨fuel' - 1, by rw [List.length_cons] at hfuel; omega⟩
      rw [List.cons_append, ObjcType.readUntil] at h ⊢
      split at h
      · obtain ⟨rfl, hrest⟩ := Prod.mk.inj (Option.some.inj h)
        rw [if_pos ‹_›, List.append_cancel_right hrest]
      · obtain ⟨⟨x, middle⟩, hx, hmore⟩ := Option.bind_eq_some_iff.1 h
        obtain ⟨⟨ys, left⟩, hys, heq⟩ := Option.bind_eq_some_iff.1 hmore
        obtain ⟨rfl, rfl⟩ := Prod.mk.inj (Option.some.inj heq)
        -- the items behind the first one leave `before`, so that the first one leaves it as well
        obtain ⟨kept, rfl⟩ : ∃ kept, kept ++ before = middle :=
          ((List.suffix_append rest before).trans (List.suffix_cons closer _)).trans
            (cons_suffix_of_readUntil hitem.suffix hys)
        rw [List.forall_mem_cons] at hfits
        have hshorter : kept.length ≤ fuel' := by
          have hlength := htakes _ _ _ hx
          simp only [List.length_cons, List.length_append] at hlength hfuel
          omega
        have hfirst := hitem.swap (s := c :: s) (hbetween hfits.1 hys) hx
        have hothers := ih hshorter hfits.2 hys
        rw [if_neg ‹_›]
        exact Option.bind_eq_some_iff.2 ⟨(x, kept ++ after), hfirst,
          Option.bind_eq_some_iff.2 ⟨(ys, rest ++ after), hothers, rfl⟩⟩

/-- Items up to a closing byte, with as much fuel as there is text. -/
protected theorem readUntil {closer : UInt8} {item item' : Text → Option (α × Text)}
    {fits : α → Prop} {between : α → Text → Prop}
    (hitem : ReadsAlike before after between item item') (htakes : TakesByte item)
    (hbetween : ∀ {x fuel kept xs rest}, fits x →
      ObjcType.readUntil closer item fuel (kept ++ before) = some (xs, rest ++ before) →
        between x kept) :
    ReadsAlike before after (fun xs _ => ∀ x ∈ xs, fits x)
      (fun s => ObjcType.readUntil closer item s.length s)
      fun s => ObjcType.readUntil closer item' s.length s where
  suffix h := (List.suffix_cons closer _).trans (cons_suffix_of_readUntil hitem.suffix h)
  swap hfits h := readUntil_swap hitem htakes hbetween (by simp) hfits h

end ReadsAlike

end ObjcLens
