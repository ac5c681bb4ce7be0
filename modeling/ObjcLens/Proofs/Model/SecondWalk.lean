import Mathlib
import ObjcLens.Proofs.Header.Declaration
import ObjcLens.Proofs.Renaming.Doubt

/-!
# Walks one after the other

A renamer and a header can look at any number of walks. The start of a walk makes them forget the
result of the walk before, and the start of an entity makes them forget the entity before. So what
they give after a walk does not depend on what they saw before it. A walk with an invalid pattern
fails before its start, and leaves what was seen before.

## Main results

* `Renamer.outcome_seeAll_eq`: what a renamer gives after a walk.
* `Header.text_seeAll_eq`: what a header shows after a walk.
* `Model.second_walkIn_eq_fresh`: what both of them give after walks of two models.
* `Tour.seeTours_of_isFaulty`: walks that fail change neither of them.
* `Tour.seeTours_eq_last`: what both of them give after any number of walks, of which some fail.
-/

namespace ObjcLens

namespace Renaming

/-- Two renamers differ at most in what the start of an entity makes them forget. -/
structure Renamer.Alike (r r' : Renamer) : Prop where
  table : r.survey.table = r'.survey.table
  result : r.result = r'.result
  isInDoubt : r.isInDoubt = r'.isInDoubt

namespace Renamer

variable (rules : Rules) (m : Model)

theorem see_enter_eq (b : Block) (r r' : Renamer) (h : Alike r r') :
    r.see rules m b.enter = r'.see rules m b.enter := by
  obtain ⟨htable, hresult, hdoubt⟩ := h
  -- the names of the entity alone tell whether it may be renamed
  cases b <;> simp only [Block.enter, see, Survey.see, Survey.isDoubtful, htable, hresult, hdoubt]

/-- The end of a walk assigns the names of the table, and replaces the result. -/
theorem Alike.outcome_see_finish {r r' : Renamer} (h : Alike r r') :
    (r.see rules m .finish).outcome = (r'.see rules m .finish).outcome := by
  show (if (r.isInDoubt || false || (assign rules r.survey.table).isInDoubt) = true then _
    else Except.ok (assign rules r.survey.table)) = _
  rw [h.table, h.isInDoubt]
  rfl

/-- What a renamer gives after a walk depends on what it saw before only if that left it in
doubt. -/
theorem outcome_seeAll_eq (plan : WalkPlan m) (visible : Entity → Bool) {r r' : Renamer}
    (h : r.isInDoubt = r'.isInDoubt) :
    (r.seeAll rules m (plan.events visible)).outcome =
      (r'.seeAll rules m (plan.events visible)).outcome := by
  have hstart : Alike (r.see rules m .start) (r'.see rules m .start) := by
    refine ⟨rfl, rfl, ?_⟩
    show (r.isInDoubt || false) = (r'.isInDoubt || false)
    rw [h]
  obtain ⟨t, t', halike, hfirst, hsecond⟩ := plan.foldl_events_alike (fun _ => ⟨rfl, rfl, rfl⟩)
    (see_enter_eq rules m) visible hstart
  rw [seeAll, seeAll, hfirst, hsecond]
  exact halike.outcome_see_finish rules m

end Renamer

end Renaming

/-- Two headers differ at most in what the start of an entity makes them forget. -/
structure Header.Alike (h h' : Header) : Prop where
  style : h.style = h'.style
  pieces : h.pieces = h'.pieces
  classes : h.classes = h'.classes
  protocols : h.protocols = h'.protocols

namespace Header

variable (palette : Palette) (m : Model)

theorem see_enter_eq (b : Block) (h h' : Header) (halike : Alike h h') :
    h.see palette m b.enter = h'.see palette m b.enter := by
  rw [see_enter, see_enter, halike.style, halike.pieces, halike.classes, halike.protocols]

/-- What is kept of an open entity is not shown before the entity is left. -/
theorem Alike.text_eq {h h' : Header} (halike : Alike h h') : h.text palette = h'.text palette := by
  simp only [text, forwards, halike.style, halike.pieces, halike.classes, halike.protocols]

/-- What a header shows after a walk does not depend on what it saw before. -/
theorem text_seeAll_eq (plan : WalkPlan m) (visible : Entity → Bool) {h h' : Header}
    (hstyle : h.style = h'.style) :
    (h.seeAll palette m (plan.events visible)).text palette =
      (h'.seeAll palette m (plan.events visible)).text palette := by
  have hstart : Alike (h.see palette m .start) (h'.see palette m .start) :=
    ⟨hstyle, rfl, rfl, rfl⟩
  obtain ⟨t, t', halike, hfirst, hsecond⟩ := plan.foldl_events_alike
    (fun _ => ⟨rfl, rfl, rfl, rfl⟩) (see_enter_eq palette m) visible hstart
  rw [seeAll, seeAll, hfirst, hsecond]
  exact halike.text_eq palette

/-- A walk leaves the style of a header as it is. -/
theorem style_seeAll (plan : WalkPlan m) (visible : Entity → Bool) (h : Header) :
    (h.seeAll palette m (plan.events visible)).style = h.style :=
  (grows_walk palette plan visible h).style

end Header

/-- A renamer and a header carry nothing over from a walk of one model to a walk of another. After
both walks the renamer gives the replacements, definitions and errors that a fresh one gives after
the second walk alone, if the first walk came to an end; the header shows the text that a fresh one
shows. -/
theorem Model.second_walkIn_eq_fresh {m m' : Model} {scope scope' : Scope}
    {events events' : List Event} (hfirst : m.walkIn scope = .ok events)
    (hsecond : m'.walkIn scope' = .ok events') {rules : Renaming.Rules}
    {before : Renaming.Assignment}
    (hbefore : (({} : Renaming.Renamer).seeAll rules m events).outcome = .ok before)
    (style : HeaderStyle) (palette : Palette) :
    ((({} : Renaming.Renamer).seeAll rules m events).seeAll rules m' events').outcome =
        (({} : Renaming.Renamer).seeAll rules m' events').outcome ∧
      ((({ style } : Header).seeAll palette m events).seeAll palette m' events').text palette =
        (({ style } : Header).seeAll palette m' events').text palette := by
  obtain ⟨visible, rfl⟩ := Model.exists_events_of_walkIn hfirst
  obtain ⟨visible', rfl⟩ := Model.exists_events_of_walkIn hsecond
  -- both consumers start anew on the event that opens a walk, so only the walk's events matter
  constructor
  · exact Renaming.Renamer.outcome_seeAll_eq rules m' m'.plan visible'
      (Renaming.Renamer.isInDoubt_of_outcome_eq_ok hbefore)
  · exact Header.text_seeAll_eq palette m' m'.plan visible' (Header.style_seeAll palette m _ _ _)

/-- Two walks with the same renamer and the same header. -/
theorem Model.second_walkIn_eq_fresh_sampleGarden :
    let first := sampleHerbarium.plan.events sampleVisible
    let second := Header.sampleGarden.plan.events sampleVisible
    let rules := Renaming.Rules.ignoring ["Leaf"] true
    sampleHerbarium.walkIn sampleScope = .ok first ∧
      Header.sampleGarden.walkIn sampleScope = .ok second ∧
      ∃ before, (({} : Renaming.Renamer).seeAll rules sampleHerbarium first).outcome = .ok before ∧
        ((({} : Renaming.Renamer).seeAll rules sampleHerbarium first).seeAll rules
            Header.sampleGarden second).outcome =
          (({} : Renaming.Renamer).seeAll rules Header.sampleGarden second).outcome ∧
        ((({} : Header).seeAll {} sampleHerbarium first).seeAll {} Header.sampleGarden
            second).text {} =
          (({} : Header).seeAll {} Header.sampleGarden second).text {} := by
  intro first second rules
  have hfirst : sampleHerbarium.walkIn sampleScope = .ok first := walkIn_eq_ok rfl (by decide)
  have hsecond : Header.sampleGarden.walkIn sampleScope = .ok second :=
    walkIn_eq_ok rfl (by decide)
  obtain ⟨before, hbefore⟩ :=
    (Renaming.Rules.answers_ignoring ["Leaf"] true).exists_outcome_eq_ok sampleHerbarium first {}
      rfl
  exact ⟨hfirst, hsecond, before, hbefore, second_walkIn_eq_fresh hfirst hsecond hbefore {} {}⟩

/-! ### Walks that fail -/

/-- A pattern of the entities that are forced is invalid. -/
def Scope.IsFaulty (scope : Scope) : Prop :=
  ∃ e, Scope.compileAll "force pattern" scope.force = .error e

/-- What is seen of a walk: all its events or, if a pattern is invalid, nothing. -/
inductive Model.Shows (m : Model) (scope : Scope) : List Event → Prop
  | whole {events : List Event} (h : m.walkIn scope = .ok events) : Shows m scope events
  | nothing (h : scope.IsFaulty) : Shows m scope []

/-- A walk of a model, whether it fails or not. -/
structure Tour where
  /-- The model. -/
  model : Model
  /-- What is asked for. -/
  scope : Scope
  /-- What is seen. -/
  events : List Event
  shows_events : model.Shows scope events

namespace Tour

/-- An invalid pattern is noticed before anything is seen. -/
theorem events_of_isFaulty (t : Tour) (h : t.scope.IsFaulty) :
    (∃ e, t.model.walkIn t.scope = .error e) ∧ t.events = [] := by
  obtain ⟨m, scope, events, hshows⟩ := t
  obtain ⟨e, herror⟩ := h
  have hwalk : m.walkIn scope = .error e := by
    rw [Model.walkIn, herror]
    rfl
  refine ⟨⟨e, hwalk⟩, ?_⟩
  cases hshows with
  | whole hevents =>
    rw [hwalk] at hevents
    cases hevents
  | nothing _ => rfl

end Tour

/-- The renamer after some walks. -/
def Renaming.Renamer.seeTours (rules : Rules) (r : Renamer) (tours : List Tour) : Renamer :=
  tours.foldl (fun r t => r.seeAll rules t.model t.events) r

namespace Header

variable (palette : Palette)

/-- The header after some walks. -/
def seeTours (h : Header) (tours : List Tour) : Header :=
  tours.foldl (fun h t => h.seeAll palette t.model t.events) h

/-- The style stays the same over any walks. -/
theorem style_seeTours (h : Header) (tours : List Tour) :
    (h.seeTours palette tours).style = h.style := by
  induction tours generalizing h with
  | nil => rfl
  | cons t rest ih =>
    refine (ih _).trans ?_
    obtain ⟨m, scope, events, hshows⟩ := t
    cases hshows with
    | whole hwalk =>
      obtain ⟨visible, rfl⟩ := Model.exists_events_of_walkIn hwalk
      exact style_seeAll palette m m.plan visible h
    | nothing _ => rfl

end Header

/-- Walks with invalid patterns leave a renamer and a header as they are. -/
theorem Tour.seeTours_of_isFaulty (rules : Renaming.Rules) (palette : Palette) {failed : List Tour}
    (hfailed : ∀ t ∈ failed, t.scope.IsFaulty) (r : Renaming.Renamer) (h : Header) :
    Renaming.Renamer.seeTours rules r failed = r ∧ Header.seeTours palette h failed = h := by
  induction failed with
  | nil => exact ⟨rfl, rfl⟩
  | cons t rest ih =>
    rw [List.forall_mem_cons] at hfailed
    simp only [Renaming.Renamer.seeTours, Header.seeTours, List.foldl_cons,
      (t.events_of_isFaulty hfailed.1).2]
    exact ih hfailed.2

/-- After any walks, a renamer and a header give what fresh ones give after the last walk that did
not fail. Before it there may be walks of any kind, as long as they left no doubt; behind it, walks
with invalid patterns change nothing. If there are only such walks, what is given is what there was
before them. -/
theorem Tour.seeTours_eq_last {rules : Renaming.Rules} (style : HeaderStyle) (palette : Palette)
    {before failed : List Tour} (hfailed : ∀ t ∈ failed, t.scope.IsFaulty) :
    (∀ r h, Renaming.Renamer.seeTours rules r failed = r ∧ Header.seeTours palette h failed = h) ∧
    ∀ (last : Tour) (given : Renaming.Assignment),
      last.model.walkIn last.scope = .ok last.events →
      (Renaming.Renamer.seeTours rules {} before).outcome = .ok given →
      (Renaming.Renamer.seeTours rules {} (before ++ last :: failed)).outcome =
          (({} : Renaming.Renamer).seeAll rules last.model last.events).outcome ∧
        (Header.seeTours palette { style } (before ++ last :: failed)).text palette =
          (({ style } : Header).seeAll palette last.model last.events).text palette := by
  have hunseen := Tour.seeTours_of_isFaulty rules palette hfailed
  refine ⟨hunseen, fun last given hlast hgiven => ?_⟩
  obtain ⟨visible, hevents⟩ := Model.exists_events_of_walkIn hlast
  -- what is seen behind the last walk is nothing, and what is seen before it is forgotten
  have hrenamer := hunseen ((Renaming.Renamer.seeTours rules {} before).seeAll rules last.model
    last.events) {}
  have hheader := hunseen {} ((Header.seeTours palette { style } before).seeAll palette last.model
    last.events)
  constructor
  · rw [Renaming.Renamer.seeTours, List.foldl_append, List.foldl_cons]
    refine (congrArg Renaming.Renamer.outcome hrenamer.1).trans ?_
    rw [hevents]
    exact Renaming.Renamer.outcome_seeAll_eq rules last.model last.model.plan visible
      (Renaming.Renamer.isInDoubt_of_outcome_eq_ok hgiven)
  · rw [Header.seeTours, List.foldl_append, List.foldl_cons]
    refine (congrArg (Header.text palette) hheader.2).trans ?_
    rw [hevents]
    exact Header.text_seeAll_eq palette last.model last.model.plan visible
      (Header.style_seeTours palette _ before)

end ObjcLens
