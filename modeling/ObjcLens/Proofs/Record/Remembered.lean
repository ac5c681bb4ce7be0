import Mathlib
import ObjcLens.Proofs.Record.Slots

/-!
# Remembered names and decoders

A reader of records may look up the name of a class or protocol instead of reading it again. This
makes no difference to the metadata, and none to the dialogue with the decoder: the same texts are
decoded in the same order, and whatever the answers are, the result is the same. So it makes none
for a decoder that answers in some other way than `DecodeRequest.decode`, either.

Names are read without a question to the decoder (`RecordReader.Silent`). Hence it does not show in
the dialogue whether they are read or looked up, and what is kept of them is known from
`RecordReader.Steady`.

## Main results

* `Dialogue.Alike.bind`: dialogues with the same questions are continued.
* `RecordReader.Transparent.of_silent`: readers that ask nothing.
* `RecordReader.compositionalWithNames_transparent`: all readers of records.
* `Image.extraction_result_eq`: the metadata of an image.
-/

namespace ObjcLens

namespace Dialogue

variable {α β γ δ : Type}

/-- The dialogues have the same questions, and with the same answers their results are related. -/
inductive Alike (R : α → β → Prop) : Dialogue α → Dialogue β → Prop
  | done {a : α} {b : β} (h : R a b) : Alike R (done a) (done b)
  | ask (request : DecodeRequest) {next : request.Answer → Dialogue α}
      {other : request.Answer → Dialogue β} (h : ∀ answer, Alike R (next answer) (other answer)) :
      Alike R (ask request next) (ask request other)

namespace Alike

variable {R : α → β → Prop} {S : γ → δ → Prop} {d : Dialogue α} {e : Dialogue β}

/-- Two dialogues that agree go on to agree when their answers do. -/
theorem bind {f : α → Dialogue γ} {g : β → Dialogue δ} (h : Alike R d e)
    (hf : ∀ a b, R a b → Alike S (f a) (g b)) : Alike S (d >>= f) (e >>= g) := by
  induction h with
  | done h => exact hf _ _ h
  | ask request _ ih => exact .ask request ih

/-- If the same is told of related results, the dialogues that tell no more are equal. -/
theorem map_eq {f : α → γ} {g : β → γ} (h : Alike R d e) (hf : ∀ a b, R a b → f a = g b) :
    f <$> d = g <$> e := by
  induction h with
  | done h => exact congrArg Dialogue.done (hf _ _ h)
  | ask request _ ih => exact congrArg (Dialogue.ask request) (funext ih)

end Alike

end Dialogue

namespace RecordReader

variable {α β : Type} {context : Context}

/-! ### Readers that ask nothing -/

/-- The reader asks the decoder nothing. -/
def Silent (m : RecordReader α) : Prop :=
  ∀ context progress, ∃ x, m context progress = pure x

namespace Silent

theorem bind {m : RecordReader α} {f : α → RecordReader β} (hm : Silent m)
    (hf : ∀ a, Silent (f a)) : Silent (m >>= f) := by
  intro context progress
  obtain ⟨⟨result, after⟩, hrun⟩ := hm context progress
  change ∃ x, (m context progress >>= fun p => ExceptT.bindCont (fun x => f x context) p.1 p.2) = _
  rw [hrun, pure_bind]
  cases result with
  | error e => exact ⟨_, rfl⟩
  | ok a => exact hf a context after

/-- A silent reader with a silent handler is silent. -/
theorem tryCatch {m : RecordReader α} {handler : Error → RecordReader α} (hm : Silent m)
    (hf : ∀ e, Silent (handler e)) : Silent (tryCatch m handler) := by
  intro context progress
  obtain ⟨⟨result, after⟩, hrun⟩ := hm context progress
  change ∃ x, (m context progress >>= fun p => _) = _
  rw [hrun, pure_bind]
  cases result with
  | error e => exact hf e context after
  | ok a => exact ⟨_, rfl⟩

theorem read_bind {f : Context → RecordReader α} (hf : ∀ c, Silent (f c)) :
    Silent (read >>= f) :=
  fun context progress => hf context context progress

theorem pure (a : α) : Silent (pure a) := fun _ _ => ⟨_, rfl⟩

theorem throw (error : Error) : Silent (throw error : RecordReader α) := fun _ _ => ⟨_, rfl⟩

theorem modify (f : Progress → Progress) : Silent (modify f) := fun _ _ => ⟨_, rfl⟩

theorem ofExcept (result : Except Error α) : Silent (ofExcept result) := by
  cases result with
  | ok a => exact pure a
  | error e => exact throw e

theorem pointerAt (addr : UInt64) : Silent (pointerAt addr) := by
  refine read_bind fun context => bind (ofExcept _) fun pointer => ?_
  split
  · split
    · exact bind (modify _) fun _ => pure _
    · exact pure _
  · exact pure _

theorem checkRange (addr size : UInt64) : Silent (checkRange addr size) := by
  rw [checkRange_eq]
  exact read_bind fun _ => ofExcept _

theorem text (addr : UInt64) : Silent (text addr) := by
  unfold RecordReader.text
  split
  · exact pure _
  · exact read_bind fun _ => ofExcept _

end Silent

/-- All steps but those that decode something are silent. -/
theorem compositionalReads_silent :
    CompositionalReads (fun {α} (m : RecordReader α) => Silent m) where
  pure := .pure
  throw := .throw
  bind := .bind
  tryCatch := .tryCatch
  read_bind _ hf := .read_bind hf
  note _ := .modify _
  pointerSize := .read_bind fun _ => .pure _
  pointerAt := .pointerAt
  word32At _ := .read_bind fun _ => .bind (.ofExcept _) fun _ => .pure _
  checkRange := .checkRange
  text := .text

/-- A name is looked up or read, both without a question. -/
private theorem silent_lookUp {fresh : RecordReader Text} (hfresh : Silent fresh) (remember : Bool)
    (known : Option Text) :
    Silent (match remember, known with
      | true, some name => pure name
      | _, _ => fresh : RecordReader Text) := by
  cases remember with
  | false => exact hfresh
  | true =>
    cases known with
    | none => exact hfresh
    | some name => exact .pure name

/-- The name of a class is not a type, so nothing is decoded for it. -/
theorem silent_className (addr : UInt64) : Silent (className addr) := by
  have h := compositionalReads_silent
  intro context progress
  refine silent_lookUp ?_ context.rememberNames _ context progress
  exact h.bind (h.classRecord addr) fun _ => h.bind (h.dataOf _) fun _ => h.bind (h.text _)
    fun name => h.bind (.modify _) fun _ => h.pure name

theorem silent_protocolName (addr : UInt64) : Silent (protocolName addr) := by
  have h := compositionalReads_silent
  intro context progress
  refine silent_lookUp ?_ context.rememberNames _ context progress
  exact h.bind h.pointerSize fun _ => h.bind (h.pointerAt _) fun _ => h.bind (h.text _)
    fun name => h.bind (.modify _) fun _ => h.pure name

/-! ### Readers that ask the same -/

/-- Both readers gave the same, and the names that they kept are those in the image. -/
structure Agree (context : Context) (x y : Except Error α × Progress) : Prop where
  result_eq : x.1 = y.1
  left : KeepsNames context x.2
  right : KeepsNames context y.2

/-- The reader asks the same and gives the same, whatever names have been kept, whether they are
looked up or not, and whatever the decoder answers. The names that it keeps are those in the
image. -/
def Transparent (context : Context) (m : RecordReader α) : Prop :=
  ∀ remember remember' progress progress', KeepsNames context progress →
    KeepsNames context progress' →
    Dialogue.Alike (Agree context) (m (context.remembering remember) progress)
      (m (context.remembering remember') progress')

namespace Transparent

/-- What a reader gives that asks nothing is known from its runs. -/
theorem of_silent {m : RecordReader α} (h : Silent m) (hm : Steady context m) :
    Transparent context m := by
  intro remember remember' progress progress' hprogress hprogress'
  obtain ⟨x, hx⟩ := h (context.remembering remember) progress
  obtain ⟨y, hy⟩ := h (context.remembering remember') progress'
  obtain ⟨after, hafter, hkeeps⟩ := hm remember progress hprogress
  obtain ⟨after', hafter', hkeeps'⟩ := hm remember' progress' hprogress'
  -- both dialogues are over at once, with what the reader gives alone
  rw [hx, Dialogue.run_pure] at hafter
  rw [hy, Dialogue.run_pure] at hafter'
  rw [hx, hy, hafter, hafter']
  exact .done ⟨rfl, hkeeps, hkeeps'⟩

theorem bind {m : RecordReader α} {f : α → RecordReader β} (hm : Transparent context m)
    (hf : ∀ a, Transparent context (f a)) : Transparent context (m >>= f) := by
  intro remember remember' progress progress' hprogress hprogress'
  refine (hm remember remember' progress progress' hprogress hprogress').bind ?_
  rintro ⟨result, after⟩ ⟨_, after'⟩ ⟨rfl, hafter, hafter'⟩
  cases result with
  | error e => exact .done ⟨rfl, hafter, hafter'⟩
  | ok a => exact hf a remember remember' after after' hafter hafter'

theorem tryCatch {m : RecordReader α} {handler : Error → RecordReader α}
    (hm : Transparent context m) (hf : ∀ e, Transparent context (handler e)) :
    Transparent context (tryCatch m handler) := by
  intro remember remember' progress progress' hprogress hprogress'
  refine (hm remember remember' progress progress' hprogress hprogress').bind ?_
  rintro ⟨result, after⟩ ⟨_, after'⟩ ⟨rfl, hafter, hafter'⟩
  cases result with
  | error e => exact hf e remember remember' after after' hafter hafter'
  | ok a => exact .done ⟨rfl, hafter, hafter'⟩

theorem read_bind {f : Context → RecordReader α}
    (hsame : ∀ remember, f (context.remembering remember) = f context)
    (hf : Transparent context (f context)) : Transparent context (read >>= f) := by
  intro remember remember' progress progress' hprogress hprogress'
  change Dialogue.Alike _ (f (context.remembering remember) (context.remembering remember) progress)
    (f (context.remembering remember') (context.remembering remember') progress')
  rw [hsame, hsame]
  exact hf remember remember' progress progress' hprogress hprogress'

/-- A question is asked whatever names have been kept. -/
theorem ask (request : DecodeRequest) : Transparent context (ask request) := by
  intro remember remember' progress progress' hprogress hprogress'
  refine .ask request fun answer => .done ⟨rfl, ?_, ?_⟩
  · exact hprogress.of_names_eq rfl rfl
  · exact hprogress'.of_names_eq rfl rfl

/-- Where the name comes from is read without a question, so that only its text matters. -/
theorem smallMethod (isClassMethod direct : Bool) (addr : UInt64) :
    Transparent context (smallMethod isClassMethod direct addr) := by
  have hsilent := compositionalReads_silent
  have hsteady := compositional_steady context
  refine read_bind (fun _ => rfl)
    (bind (of_silent (.ofExcept _) (.ofExcept _)) fun bytes => ?_)
  extract_lets distance target imp finish
  have hfinish (nameAddr : UInt64) : Transparent context (finish nameAddr) := by
    have htext (addr : UInt64) : Transparent context (text addr) :=
      of_silent (hsilent.text addr) (hsteady.text addr)
    exact bind (htext _) fun _ => bind (htext _) fun _ => bind (ask _) fun _ =>
      of_silent (.pure _) (.pure _)
  split
  · exact bind (of_silent (.pure _) (.pure _)) hfinish
  · refine bind (of_silent (hsilent.pointerAt _) (hsteady.pointerAt _)) fun _ => ?_
    exact bind (of_silent (.pure _) (.pure _)) hfinish

end Transparent

/-- All readers that keep no names are transparent. -/
theorem compositional_transparent (context : Context) :
    Compositional (fun {α} (m : RecordReader α) => Transparent context m) where
  pure a := .of_silent (.pure a) (.pure a)
  throw error := .of_silent (.throw error) (.throw error)
  bind := .bind
  tryCatch := .tryCatch
  read_bind hsame hf := .read_bind (fun _ => hsame _ _ rfl) (hf context)
  -- steps that ask nothing of the decoder have nothing to look up
  note entry := .of_silent (.modify _) (.note entry)
  decodeType _ := .ask _
  decodeMethod _ := .ask _
  pointerSize := .of_silent compositionalReads_silent.pointerSize .pointerSize
  pointerAt addr := .of_silent (.pointerAt addr) (.pointerAt addr)
  word32At addr := .of_silent (compositionalReads_silent.word32At addr) (.word32At addr)
  checkRange addr size := .of_silent (.checkRange addr size) (.checkRange addr size)
  text addr := .of_silent (.text addr) (.text addr)
  smallMethod := .smallMethod

/-- All readers of records are transparent. -/
theorem compositionalWithNames_transparent (context : Context) :
    CompositionalWithNames (fun {α} (m : RecordReader α) => Transparent context m) where
  toCompositional := compositional_transparent context
  className addr := .of_silent (silent_className addr) (steady_className addr)
  protocolName addr := .of_silent (silent_protocolName addr) (steady_protocolName addr)
  keepClassName_bind addr hf := by
    have h := compositionalReads_silent
    -- up to the kept name nothing is asked, and that it is right is known from steadiness
    have hkept : Transparent context (do
        let record ← classRecord addr
        let data ← annotating [] "data" (dataOf record)
        let name ← annotating [] "name" (RecordReader.text data.name)
        modify fun p => { p with classNames := (addr, name) :: p.classNames }
        return (record, data, name)) := by
      refine .of_silent ?_ ?_
      · exact h.bind (h.classRecord addr) fun _ => h.bind (h.annotating (h.dataOf _) _ _) fun _ =>
          h.bind (h.annotating (h.text _) _ _) fun _ => h.bind (.modify _) fun _ => h.pure _
      · exact (compositionalWithNames_steady context).keepClassName_bind addr fun _ _ _ => .pure _
    have hwhole := hkept.bind fun x => hf x.1 x.2.1 x.2.2
    simpa only [bind_assoc, pure_bind] using hwhole
  keepProtocolName_bind addr hf := by
    have h := compositionalReads_silent
    have hkept : Transparent context (do
        let record ← protocolRecord addr
        let name ← annotating [] "name" (RecordReader.text record.name)
        modify fun p => { p with protocolNames := (addr, name) :: p.protocolNames }
        return (record, name)) := by
      refine .of_silent ?_ ?_
      · exact h.bind (h.protocolRecord addr) fun _ => h.bind (h.annotating (h.text _) _ _) fun _ =>
          h.bind (.modify _) fun _ => h.pure _
      · exact (compositionalWithNames_steady context).keepProtocolName_bind addr fun _ _ => .pure _
    have hwhole := hkept.bind fun x => hf x.1 x.2
    simpa only [bind_assoc, pure_bind] using hwhole

/-- The metadata are read alike. -/
theorem transparent_readMetadata (info : Except Error ImageInfo) :
    Transparent context (readMetadata info) := by
  have h := compositionalWithNames_transparent context
  refine .read_bind (fun _ => rfl) ?_
  exact h.bind (h.listSections h.readProtocol _ _) fun _ =>
    h.bind (h.listSections h.readClass _ _) fun _ =>
    h.bind (h.listSections h.readCategory _ _) fun _ => h.bind (h.note _) fun _ => h.pure _

end RecordReader

namespace Image

/-- Remembered names make no difference to the metadata of an image: what is read, what is skipped,
and the error if there is one are the same if names are read again every time. This holds for every
decoder, since the same questions are asked, and whatever the answers are the results are the same;
in particular it holds if every encoding is decoded as it is found. -/
theorem extraction_result_eq (image : Image) :
    (∀ rememberNames : Bool,
      Extraction.result <$> image.extraction rememberNames =
        Extraction.result <$> image.extraction false) ∧
      image.metadata = (image.extract false).result := by
  suffices h : ∀ rememberNames : Bool, Extraction.result <$> image.extraction rememberNames =
      Extraction.result <$> image.extraction false by
    refine ⟨h, ?_⟩
    have hrun := congrArg Dialogue.run (h true)
    simp only [map_eq_pure_bind, Dialogue.run_bind, Dialogue.run_pure] at hrun
    exact hrun
  intro rememberNames
  cases hany : image.hasMetadata with
  | false => simp only [extraction, hany, Bool.not_false, if_true]
  | true =>
    cases hinfo : image.imageInfo with
    | crashed => simp [extraction, hany, hinfo]
    | returned info =>
      have hread (remember : Bool) : Extraction.result <$> image.extraction remember =
          Attempt.returned <$> Prod.fst <$> (RecordReader.readMetadata info
            (image.recordContext.remembering remember) {} : Dialogue _) := by
        rw [extraction, hany, hinfo, Bool.not_true, if_neg Bool.false_ne_true]
        simp only [map_eq_pure_bind, bind_assoc, pure_bind]
        rw [recordContext, info?, hinfo]
        cases info <;> rfl
      rw [hread, hread]
      have hsame : RecordReader.Transparent image.recordContext (RecordReader.readMetadata info) :=
        RecordReader.transparent_readMetadata _
      exact congrArg _ ((hsame rememberNames false {} {} .empty .empty).map_eq
        fun _ _ h => h.result_eq)

end Image

end ObjcLens
