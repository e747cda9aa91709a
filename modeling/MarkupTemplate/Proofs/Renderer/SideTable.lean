import MarkupTemplate.Proofs.Renderer.Eviction
import Mathlib.Data.List.Induction
import Mathlib.Data.Set.Card

/-!
# What a renderer remembers

A renderer keeps a table of the containers that it has rendered into. Containers leave the document
in many ways that the table does not notice: they are removed, or something around them is cleared,
replaced, discarded or rendered into. So the table follows the events alone: a container is entered
when a result has been rendered into it (`Session.Fills`), and struck out when it is discarded, or
when the table is checked while the container is not there (`Session.Forgets`).

One event does one of these or neither (`Session.isRendered_after`), and the rest is by induction on
the events, from the last one back.

Results:
* `Renderer.render_cases`: what comes of rendering a result.
* `Renderer.encard_retainLive`: how many containers a check of the table strikes out.
* `Session.isRendered_after`: what one event does to the table.
* `Session.isRendered_play_iff`: what is in the table after any events.
* `Session.table_follows_events`: what a renderer says of its containers follows from the events.
-/

namespace MarkupTemplate

namespace Renderer

theorem isRendered_iff {r : Renderer} {c : Handle} :
    r.isRendered c = true ↔ c ∈ Entries.keys r.rendered :=
  Entries.isSome_lookup?_iff

/-! ## What one call does -/

/-- Asking for a result does not touch the table. -/
theorem rendered_html (r : Renderer) (site : CallSite) (values : List Value) :
    (r.html site values).1.rendered = r.rendered := by
  by_cases h : site.fragments.length = values.length + 1
  · rw [html_of_length r h]
  · rw [html_of_length_ne r h]

/-- **What comes of rendering a result**: it fails, or what is in the container is written to, or
the container is entered in the table. -/
theorem render_cases (r : Renderer) (d : Document) (result : TemplateResult) (c : Handle) :
    (∃ d' e, r.render d result c = (r, d', .error e)) ∨
      (r.isRendered c = true ∧ ∃ d', r.render d result c = (r, d', .ok ())) ∨
      ∃ d' u, r.render d result c =
        ({ r with rendered := Entries.insert r.rendered c u }, d', .ok ()) := by
  unfold render
  split
  · exact .inl ⟨_, _, rfl⟩
  · split
    · next u hu => exact .inr (.inl ⟨by rw [isRendered, hu]; rfl, _, rfl⟩)
    · unfold place
      split
      · exact .inl ⟨_, _, rfl⟩
      · split
        · exact .inl ⟨_, _, rfl⟩
        · exact .inr (.inr ⟨_, _, rfl⟩)

/-- **Rendering enters a container in the table**, if it succeeds, and strikes out none. -/
theorem isRendered_render_iff (r : Renderer) (d : Document) (result : TemplateResult)
    (c c' : Handle) : (r.render d result c').1.isRendered c = true ↔
      (c' = c ∧ (r.render d result c').2.2 = .ok ()) ∨ r.isRendered c = true := by
  rcases r.render_cases d result c' with ⟨d', e, h⟩ | ⟨hrendered, d', h⟩ | ⟨d', u, h⟩
  · rw [h]
    simp
  · rw [h]
    refine ⟨.inr, ?_⟩
    rintro (⟨rfl, -⟩ | hrendered')
    · exact hrendered
    · exact hrendered'
  · rw [h, isRendered_iff, isRendered_iff, Entries.keys_insert]
    by_cases hc : c' = c
    · simp [hc]
    · simp [hc, Ne.symm hc]

theorem nodup_render {r : Renderer} (hr : (Entries.keys r.rendered).Nodup) (d : Document)
    (result : TemplateResult) (c : Handle) :
    (Entries.keys (r.render d result c).1.rendered).Nodup := by
  rcases r.render_cases d result c with ⟨d', e, h⟩ | ⟨-, d', h⟩ | ⟨d', u, h⟩
  · rw [h]
    exact hr
  · rw [h]
    exact hr
  · rw [h]
    exact Entries.nodup_keys_insert hr c u

/-- **A check of the table** strikes out the containers that are not there, and says how many they
were. -/
theorem encard_retainLive {r : Renderer} (hr : (Entries.keys r.rendered).Nodup) (d : Document) :
    {c | r.isRendered c = true ∧ d.contains c = false}.encard = (r.retainLive d).2 := by
  have hcount : (r.retainLive d).2 = ((Entries.keys r.rendered).filter (!d.contains ·)).length := by
    have htotal := List.length_eq_countP_add_countP (fun e => d.contains e.1) (l := r.rendered)
    rw [← Entries.keys_filter, Entries.keys, List.length_map, retainLive]
    simp only [← List.countP_eq_length_filter, decide_not, Bool.decide_eq_true] at htotal ⊢
    omega
  have hset : {c | r.isRendered c = true ∧ d.contains c = false} =
      (((Entries.keys r.rendered).filter (!d.contains ·)).toFinset : Set Handle) := by
    ext c
    simp [isRendered_iff]
  rw [hset, Set.encard_coe_eq_coe_finsetCard, List.toFinset_card_of_nodup (hr.filter _), hcount]

end Renderer

/-! ## Events -/

/-- The container that an event names, if it names one. -/
def Event.container? : Event → Option Handle
  | call c => c.container?
  | isRendered c => some c
  | edit _ => none

namespace Session

/-- The session after events, one after the other. -/
def play (s : Session) (events : List Event) : Session :=
  events.foldl after s

theorem play_concat (s : Session) (events : List Event) (e : Event) :
    s.play (events ++ [e]) = (s.play events).after e := by
  rw [play, List.foldl_append]
  rfl

/-- The event renders a result into the container `c`. -/
def Fills (s : Session) (c : Handle) (e : Event) : Prop :=
  ∃ k, e = .call (.render k c) ∧ s.answer e = .render (some (.ok ()))

/-- The event discards the container `c`, or checks the table while `c` is not there. -/
def Forgets (s : Session) (c : Handle) (e : Event) : Prop :=
  e = .call (.discard c) ∨ e = .call .retainLive ∧ s.doc.contains c = false

/-- One of the events rendered a result into the container `c`, and no later one has made the
renderer forget it. -/
def Holds (s : Session) (events : List Event) (c : Handle) : Prop :=
  ∃ i e, events[i]? = some e ∧ (s.play (events.take i)).Fills c e ∧
    ∀ j e', i < j → events[j]? = some e' → ¬(s.play (events.take j)).Forgets c e'

theorem getElem?_concat_eq_some_iff {events : List Event} {e x : Event} {i : Nat} :
    (events ++ [e])[i]? = some x ↔ events[i]? = some x ∨ i = events.length ∧ x = e := by
  rcases Nat.lt_trichotomy i events.length with hlt | rfl | hgt
  · rw [List.getElem?_append_left hlt]
    simp [Nat.ne_of_lt hlt]
  · simp [eq_comm]
  · rw [List.getElem?_eq_none (Nat.le_of_lt hgt), List.getElem?_eq_none (by simp; omega)]
    simp [Nat.ne_of_gt hgt]

/-- **The last event decides**, or else the ones before it. -/
theorem holds_concat (s : Session) (events : List Event) (e : Event) (c : Handle) :
    s.Holds (events ++ [e]) c ↔ (s.play events).Fills c e ∨
      s.Holds events c ∧ ¬(s.play events).Forgets c e := by
  have hlast : (events ++ [e]).take events.length = events := List.take_left
  have hlt : ∀ {i x}, events[i]? = some x → i < events.length := fun hi =>
    (List.getElem?_eq_some_iff.1 hi).1
  have hbefore : ∀ {i x}, events[i]? = some x → (events ++ [e]).take i = events.take i := fun hi =>
    List.take_append_of_le_length (Nat.le_of_lt (hlt hi))
  simp only [Holds, getElem?_concat_eq_some_iff]
  constructor
  · rintro ⟨i, x, hi | ⟨rfl, rfl⟩, hfills, hkeeps⟩
    · have hforgets := hkeeps events.length e (hlt hi) (.inr ⟨rfl, rfl⟩)
      rw [hlast] at hforgets
      rw [hbefore hi] at hfills
      refine .inr ⟨⟨i, x, hi, hfills, fun j y hij hj => ?_⟩, hforgets⟩
      rw [← hbefore hj]
      exact hkeeps j y hij (.inl hj)
    · rw [hlast] at hfills
      exact .inl hfills
  · rintro (hfills | ⟨⟨i, x, hi, hfills, hkeeps⟩, hforgets⟩)
    · refine ⟨events.length, e, .inr ⟨rfl, rfl⟩, by rwa [hlast], fun j y hij hj => ?_⟩
      rcases hj with hj | ⟨rfl, -⟩
      · exact absurd (hlt hj) (Nat.lt_asymm hij)
      · exact absurd hij (Nat.lt_irrefl _)
    · refine ⟨i, x, .inl hi, by rwa [hbefore hi], fun j y hij hj => ?_⟩
      rcases hj with hj | ⟨rfl, rfl⟩
      · rw [hbefore hj]
        exact hkeeps j y hij hj
      · rwa [hlast]

/-! ## What one event does -/

theorem fills_render_iff {s : Session} {c c' : Handle} {k : Nat} :
    s.Fills c (.call (.render k c')) ↔ c' = c ∧
      ∃ result, s.results[k]? = some result ∧
        (s.renderer.render s.doc result c').2.2 = .ok () := by
  simp only [Fills, answer, Event.call.injEq, Call.render.injEq, Answer.render.injEq,
    Option.map_eq_some_iff]
  constructor
  · rintro ⟨_, ⟨-, h⟩, hok⟩
    exact ⟨h, hok⟩
  · rintro ⟨h, hok⟩
    exact ⟨k, ⟨rfl, h⟩, hok⟩

theorem renderer_call_render {s : Session} {k : Nat} {result : TemplateResult}
    (hk : s.results[k]? = some result) (c : Handle) :
    (s.call (.render k c)).renderer = (s.renderer.render s.doc result c).1 := by
  rw [Session.call, Session.render, hk]

theorem rendered_call_html (s : Session) (site : CallSite) (values : List Value) :
    (s.call (.html site values)).renderer.rendered = s.renderer.rendered := by
  have hhtml := s.renderer.rendered_html site values
  unfold Session.call
  dsimp only
  split
  · next h =>
    rw [h] at hhtml
    exact hhtml
  · next h =>
    rw [h] at hhtml
    exact hhtml

/-- **One event enters a container in the table, or strikes it out, or leaves it.** -/
theorem isRendered_after (s : Session) (e : Event) (c : Handle) :
    (s.after e).renderer.isRendered c = true ↔
      s.Fills c e ∨ s.renderer.isRendered c = true ∧ ¬s.Forgets c e := by
  cases e with
  | call call =>
    cases call with
    | html site values =>
      rw [after, Renderer.isRendered_iff, Renderer.isRendered_iff, rendered_call_html]
      simp [Fills, Forgets]
    | render k c' =>
      have hkeeps : ¬s.Forgets c (.call (.render k c')) := by simp [Forgets]
      rw [after, fills_render_iff]
      cases hk : s.results[k]? with
      | none =>
        rw [Session.call, Session.render, hk]
        simp [hkeeps]
      | some result =>
        rw [renderer_call_render hk, Renderer.isRendered_render_iff]
        simp [hkeeps]
    | discard c' =>
      have hkeys : Entries.keys (s.after (.call (.discard c'))).renderer.rendered =
          (Entries.keys s.renderer.rendered).filter (· ≠ c') :=
        Entries.keys_filter _ fun x => decide (x ≠ c')
      rw [Renderer.isRendered_iff, Renderer.isRendered_iff, hkeys]
      simp [Fills, Forgets, @eq_comm _ c']
    | retainLive =>
      have hkeys : Entries.keys (s.after (.call .retainLive)).renderer.rendered =
          (Entries.keys s.renderer.rendered).filter s.doc.contains :=
        Entries.keys_filter _ s.doc.contains
      rw [Renderer.isRendered_iff, Renderer.isRendered_iff, hkeys]
      simp [Fills, Forgets]
  | isRendered c' => simp [after, Fills, Forgets]
  | edit op => simp [after, Fills, Forgets]

/-- No event enters a container twice. -/
theorem nodup_after {s : Session} (hs : (Entries.keys s.renderer.rendered).Nodup) (e : Event) :
    (Entries.keys (s.after e).renderer.rendered).Nodup := by
  have hfilter : ∀ p : Handle → Bool,
      (Entries.keys (s.renderer.rendered.filter fun e => p e.1)).Nodup := by
    intro p
    rw [Entries.keys_filter]
    exact hs.filter p
  cases e with
  | call call =>
    cases call with
    | html site values =>
      rw [after, rendered_call_html]
      exact hs
    | render k c =>
      rw [after]
      cases hk : s.results[k]? with
      | none =>
        rw [Session.call, Session.render, hk]
        exact hs
      | some result =>
        rw [renderer_call_render hk]
        exact Renderer.nodup_render hs s.doc result c
    | discard c => exact hfilter fun x => decide (x ≠ c)
    | retainLive => exact hfilter s.doc.contains
  | isRendered c => exact hs
  | edit op => exact hs

/-! ## All events -/

theorem nodup_play {s : Session} (hs : (Entries.keys s.renderer.rendered).Nodup)
    (events : List Event) : (Entries.keys (s.play events).renderer.rendered).Nodup := by
  induction events generalizing s with
  | nil => exact hs
  | cons e events ih => exact ih (nodup_after hs e)

/-- **What is in the table** after any events is what was entered and not struck out since. -/
theorem isRendered_play_iff (d : Document) (cache : TemplateCache)
    (results : List TemplateResult) (events : List Event) (c : Handle) :
    ((Session.mk d { cache } results).play events).renderer.isRendered c = true ↔
      (Session.mk d { cache } results).Holds events c := by
  induction events using List.reverseRecOn with
  | nil =>
    refine iff_of_false Bool.false_ne_true ?_
    rintro ⟨i, e, he, -⟩
    cases he
  | append_singleton events e ih => rw [play_concat, isRendered_after, ih, holds_concat]

/-- **A renderer's table follows the events.** A renderer that has rendered nothing is at work on a
document, with any results to render, and anything happens in any order, whether it succeeds or
fails. A container counts as rendered into if and only if a result was rendered into it, and since
then it was neither discarded, nor gone when the table was checked. Discarding a container tells
whether it counted as rendered into, and leaves it out of the document. A check of the table tells
how many containers counted as rendered into and were gone; after it those that count are all there,
and another check finds none. And nothing but a check changes whether a container counts that it
does not name. -/
theorem table_follows_events (d : Document) (cache : TemplateCache)
    (results : List TemplateResult) (events : List Event) :
    let start : Session := ⟨d, { cache }, results⟩
    let s := start.play events
    let checked := s.after (.call .retainLive)
    (∀ c, s.renderer.isRendered c = true ↔ start.Holds events c) ∧
      (∀ c, s.answer (.call (.discard c)) = .discard (s.renderer.isRendered c) ∧
        (s.after (.call (.discard c))).doc.contains c = false) ∧
      (∃ n : Nat, s.answer (.call .retainLive) = .retainLive n ∧
        {c | s.renderer.isRendered c = true ∧ s.doc.contains c = false}.encard = n) ∧
      (∀ c, checked.renderer.isRendered c = true → checked.doc.contains c = true) ∧
      checked.answer (.call .retainLive) = .retainLive 0 ∧
      ∀ e c, e ≠ .call .retainLive → e.container? ≠ some c →
        (s.after e).renderer.isRendered c = s.renderer.isRendered c := by
  intro start s checked
  have hnodup : (Entries.keys s.renderer.rendered).Nodup :=
    nodup_play (s := start) List.nodup_nil events
  have hlive : ∀ c, checked.renderer.isRendered c = true → checked.doc.contains c = true := by
    intro c hc
    rw [isRendered_after] at hc
    rcases hc with ⟨_, h, -⟩ | ⟨-, hkept⟩
    · cases h
    · exact Bool.eq_true_of_not_eq_false fun hgone => hkept (.inr ⟨rfl, hgone⟩)
  have hnone : (checked.renderer.retainLive checked.doc).2 = 0 := by
    have hcount := Renderer.encard_retainLive (nodup_after hnodup (.call .retainLive)) checked.doc
    have hempty : {c | checked.renderer.isRendered c = true ∧ checked.doc.contains c = false} = ∅ :=
      Set.eq_empty_of_forall_notMem fun c hc =>
        Bool.false_ne_true (hc.2.symm.trans (hlive c hc.1))
    rw [hempty, Set.encard_empty] at hcount
    exact_mod_cast hcount.symm
  refine ⟨isRendered_play_iff d cache results events,
    fun c => ⟨rfl, s.doc.contains_remove_self c⟩, ⟨_, rfl, Renderer.encard_retainLive hnodup s.doc⟩,
    hlive, congrArg Answer.retainLive hnone, fun e c hcheck hother => ?_⟩
  have hfills : ¬s.Fills c e := by
    rintro ⟨k, rfl, -⟩
    exact hother rfl
  have hforgets : ¬s.Forgets c e := by
    rintro (rfl | ⟨rfl, -⟩)
    · exact hother rfl
    · exact hcheck rfl
  rw [Bool.eq_iff_iff, isRendered_after]
  simp [hfills, hforgets]

/-- A rendering fails and another succeeds, and the container is removed: the next check finds it.
-/
theorem table_follows_events_removed :
    let d : Document := { forest := .cons ⟨0, .element { tag := "p" }⟩ .nil .nil, next := 1 }
    let start : Session := ⟨d, {}, [⟨⟨none, []⟩, .null⟩, ⟨.empty, .null⟩]⟩
    let failed := start.play [.call (.render 0 0)]
    let gone := start.play [.call (.render 0 0), .call (.render 1 0), .edit (.remove 0)]
    failed.renderer.isRendered 0 = false ∧
      ¬start.Holds [.call (.render 0 0)] 0 ∧
      gone.renderer.isRendered 0 = true ∧
      start.Holds [.call (.render 0 0), .call (.render 1 0), .edit (.remove 0)] 0 ∧
      gone.answer (.call .retainLive) = .retainLive 1 ∧
      {c | gone.renderer.isRendered c = true ∧ gone.doc.contains c = false}.encard = 1 := by
  intro d start failed gone
  obtain ⟨hfailed, -⟩ := table_follows_events d {} start.results [.call (.render 0 0)]
  obtain ⟨hgone, -, ⟨n, hanswer, hcount⟩, -⟩ := table_follows_events d {} start.results
    [.call (.render 0 0), .call (.render 1 0), .edit (.remove 0)]
  have hnot : failed.renderer.isRendered 0 = false := by decide +kernel
  have hthere : gone.renderer.isRendered 0 = true := by decide +kernel
  have hone : gone.answer (.call .retainLive) = .retainLive 1 := by rfl
  obtain rfl : 1 = n := Answer.retainLive.inj (hone.symm.trans hanswer)
  exact ⟨hnot, fun h => Bool.false_ne_true (hnot.symm.trans ((hfailed 0).2 h)), hthere,
    (hgone 0).1 hthere, hone, hcount⟩

end Session

end MarkupTemplate
