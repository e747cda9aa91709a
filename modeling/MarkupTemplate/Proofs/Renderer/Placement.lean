import MarkupTemplate.Proofs.Document.Lifetime
import MarkupTemplate.Proofs.Renderer.SideTable

/-!
# What a rendering leaves behind

The first rendering into a container clears it, copies a skeleton, binds and fills the copy, moves
what is under it to the container and removes the rest. Each of these steps can fail on its own, and
after the first one the children would be gone. None of them does when a call site has given the
result: all that its template is bound to is there in any copy. So a rendering fails where there is
no container and nowhere else, and what it allocates ends up in the container or is removed.

Results:
* `Forest.mem_handles_reshape_iff`: which nodes there are after an exchange.
* `Exchange.refilled`: an exchange for new nodes replaces what is under a node, and nothing else.
* `Session.written_play`: at any time the templates in a cache are those of call sites.
* `Session.rendering_leaks_nothing`: all of this of a rendering.
-/

namespace MarkupTemplate

/-- **After an exchange** there are the nodes that were outside and the new ones. -/
theorem Forest.mem_handles_reshape_iff {c h : Handle} {new f : Forest Node} (hf : f.handles.Nodup)
    {t : Tree Node} (ht : f.find? c = some t) : h ∈ (f.reshape c fun _ => new).handles ↔
      h ∈ f.handles ∧ h ∉ t.children.handles ∨ h ∈ new.handles := by
  induction f with
  | nil => cases ht
  | cons a below beside ih₁ ih₂ =>
    obtain ⟨ha, ha', hbelow, hbeside, hdisjoint⟩ := nodup_handles_cons.1 hf
    by_cases hc : a.handle = c
    · subst hc
      rw [find?, if_pos rfl] at ht
      obtain rfl := Option.some.inj ht
      rw [reshape, if_pos rfl, reshape_of_not_mem _ ha']
      simp only [handles_cons, List.mem_cons, List.mem_append]
      grind
    · rw [find?_cons_of_ne hc] at ht
      rw [reshape, if_neg hc]
      rcases Option.or_eq_some_iff.1 ht with ht | ⟨hno, ht⟩
      · have hinside : h ∈ t.children.handles → h ∈ below.handles := fun hh =>
          (handles_sublist_of_find? ht).subset (List.mem_cons_of_mem _ hh)
        rw [reshape_of_not_mem _ (hdisjoint c (mem_handles_of_find? ht))]
        simp only [handles_cons, List.mem_cons, List.mem_append, ih₁ hbelow ht]
        grind
      · have hinside : h ∈ t.children.handles → h ∈ beside.handles := fun hh =>
          (handles_sublist_of_find? ht).subset (List.mem_cons_of_mem _ hh)
        rw [reshape_of_not_mem _ (find?_eq_none_iff.1 hno)]
        simp only [handles_cons, List.mem_cons, List.mem_append, ih₂ hbeside ht]
        grind

namespace Document

/-! ## Replacing what is under a node -/

/-- What was under `c` has given way to new nodes, and nothing else has happened. -/
structure Refilled (d d' : Document) (c : Handle) : Prop where
  /-- There are the nodes that were not under `c`, and those that are under it now. -/
  contains : ∀ h, d'.contains h = true ↔ d.contains h = true ∧ h ∉ d.below c ∨ h ∈ d'.below c
  /-- Those under `c` are new. -/
  fresh : ∀ h ∈ d'.below c, d.next ≤ h
  /-- All that is not under `c` is the same. -/
  outside : d.SameOutside d' c
  /-- The node `c` is what it was. -/
  content : d'.content? c = d.content? c
  /-- It has the parent that it had. -/
  parent : d'.parent? c = d.parent? c
  /-- It has the place among its siblings that it had. -/
  position : d'.position? c = d.position? c

/-- A node is not under itself. -/
theorem WellFormed.self_not_mem_below {d : Document} (hd : d.WellFormed) (c : Handle) :
    c ∉ d.below c := by
  cases ht : d.tree? c with
  | none =>
    rw [below, ht]
    exact List.not_mem_nil
  | some t =>
    have hself := (List.nodup_cons.1 (nodup_handles_of_tree? hd ht)).1
    rw [below_of_tree? ht]
    rwa [Forest.handle_of_find? ht] at hself

/-- The parent of a node is not under it. -/
theorem WellFormed.parent_not_mem_below {d : Document} (hd : d.WellFormed) {c p : Handle}
    (hp : d.parent? c = some p) : p ≠ c ∧ p ∉ d.below c := by
  have hlive := (hd.contains_of_isParent hp).2
  obtain ⟨t, ht⟩ := Option.isSome_iff_exists.1 hlive
  have hself := hd.self_not_mem_below c
  rw [below_of_tree? ht] at hself ⊢
  rwa [hd.mem_below_iff ht hp, not_or] at hself

section

variable {d d' : Document} {c : Handle} {new : Forest Node} (he : d.Exchange d' c new)

include he

/-- **An exchange for new nodes** replaces what is under a node, and nothing else. -/
theorem Exchange.refilled (hd : d.WellFormed) {t : Tree Node} (ht : d.tree? c = some t)
    (hnew : ∀ h ∈ new.handles, d.next ≤ h) : d.Refilled d' c := by
  have hbelow : d'.below c = new.handles := below_of_tree? (he.tree?_self ht)
  have hout := he.sameOutside ht hd
  have hself := hd.self_not_mem_below c
  have hself' := he.wellFormed.self_not_mem_below c
  have hparent := hout.parent c hself hself'
  refine ⟨fun h => ?_, fun h hh => hnew h (hbelow ▸ hh), hout, hout.content c hself hself',
    hparent, ?_⟩
  · rw [contains_iff, contains_iff, he.forest, hbelow, below_of_tree? ht]
    exact Forest.mem_handles_reshape_iff hd.nodup ht
  · unfold position?
    rw [hparent]
    cases hp : d.parent? c with
    | none => rfl
    | some p =>
      obtain ⟨hne, hold⟩ := hd.parent_not_mem_below hp
      obtain ⟨-, hnow⟩ := he.wellFormed.parent_not_mem_below (hparent.trans hp)
      exact congrArg (List.idxOf? c) (hout.children p hne hold hnow)

end

end Document

/-! ## A rendering -/

/-- **A rendering is refused** where there is no container, and nowhere else. -/
theorem Renderer.render_given (r : Renderer) {result : TemplateResult} (hresult : result.Given)
    {d : Document} (hd : d.WellFormed) {c : Handle} (hc : d.contains c = true) :
    (r.render d result c).2.2 = .ok () ∧
      if r.isRendered c then d.SamePlaces (r.render d result c).2.1
      else d.Refilled (r.render d result c).2.1 c := by
  unfold render isRendered
  rw [hc]
  cases hu : r.updater? c with
  | some u => exact ⟨rfl, hd.samePlaces_update u result.values⟩
  | none =>
    obtain ⟨t, ht⟩ := Option.isSome_iff_exists.1 hc
    obtain ⟨d', u, new, hplace, hexchange, hnew, -⟩ :=
      r.place_eq hresult.authored hresult.values hd ht
    have hmade : r.place d result c =
      ({ r with rendered := Entries.insert r.rendered c u }, d', .ok ()) := hplace
    simp only [Bool.not_true, Bool.false_eq_true, if_false, hmade]
    exact ⟨trivial, hexchange.refilled hd ht hnew⟩

namespace Session

/-- Whatever happens, the templates in the cache are those of call sites. -/
theorem written_after {s : Session} (hs : s.renderer.cache.Written) (e : Event) :
    (s.after e).renderer.cache.Written := by
  cases e with
  | call call =>
    cases call with
    | html site values =>
      have hwritten := (Renderer.html_given hs site values).1
      unfold after Session.call
      dsimp only
      split
      · next h => rwa [h] at hwritten
      · next h => rwa [h] at hwritten
    | render k c =>
      rw [after]
      cases hk : s.results[k]? with
      | none =>
        rw [Session.call, Session.render, hk]
        exact hs
      | some result =>
        rw [renderer_call_render hk]
        rcases s.renderer.render_cases s.doc result c with ⟨d', e, h⟩ | ⟨-, d', h⟩ | ⟨d', u, h⟩
        all_goals
          rw [h]
          exact hs
    | discard c => exact hs
    | retainLive => exact hs
  | isRendered c => exact hs
  | edit op => exact hs

theorem written_play {s : Session} (hs : s.renderer.cache.Written) (events : List Event) :
    (s.play events).renderer.cache.Written := by
  induction events generalizing s with
  | nil => exact hs
  | cons e events ih => exact ih (written_after hs e)

/-- **Rendering leaks nothing.** A result that a call site has given, at any time of the work of any
renderer, is rendered into any container of any document. This fails if and only if the container is
not in the document, and then the document and the renderer are left as they were. If nothing counts
as rendered into the container, then afterwards there are the former nodes, without those that were
under the container, and new nodes under the container, and no other; the nodes outside are what
they were, where they were, and so is the container itself. If something counts as rendered into it,
no node is created, removed or moved. -/
theorem rendering_leaks_nothing {d₀ : Document} {capacity : Capacity} {events : List Event}
    {site : CallSite} {values : List Value} {result : TemplateResult}
    (hresult : (((start d₀ capacity).play events).renderer.html site values).2 = .ok result)
    {d : Document} (hd : d.Reachable) (r : Renderer) (c : Handle) :
    let after := r.render d result c
    (after.2.2 ≠ .ok () ↔ d.contains c = false) ∧
      (d.contains c = false → after = (r, d, .error (.missingContainer c))) ∧
      (d.contains c = true → r.isRendered c = false → d.Refilled after.2.1 c) ∧
      (d.contains c = true → r.isRendered c = true → d.SamePlaces after.2.1) := by
  intro after
  have hcache : ((start d₀ capacity).play events).renderer.cache.Written :=
    written_play (fun _ he => absurd he List.not_mem_nil) events
  have hgiven : result.Given := (Renderer.html_given hcache site values).2.2 result hresult
  have hmissing : d.contains c = false → after = (r, d, .error (.missingContainer c)) :=
    fun hc => Renderer.render_missing hc r result
  have hlive := fun hc => r.render_given hgiven hd.wellFormed (c := c) hc
  refine ⟨⟨fun hfails => ?_, fun hc => ?_⟩, hmissing, fun hc hno => ?_, fun hc hyes => ?_⟩
  · rw [← Bool.not_eq_true]
    exact fun hc => hfails (hlive hc).1
  · rw [hmissing hc]
    exact fun h => by cases h
  · have hrefilled := (hlive hc).2
    rwa [hno, if_neg Bool.false_ne_true] at hrefilled
  · have hsame := (hlive hc).2
    rwa [hyes, if_pos rfl] at hsame

/-- A text is replaced by an element, in which the next text is written; another container is not
there. -/
theorem rendering_leaks_nothing_bold :
    let d := (Document.empty.plant
      ⟨.element { tag := "p" }, .cons (.text "old") .nil .nil⟩).1
    let b : CallSite := ⟨0, ["<b>", "</b>"]⟩
    let renderer : Renderer := {}
    ∃ x y, (((start d none).play []).renderer.html b [.string "x"]).2 = .ok x ∧
      (((start d none).play [.edit (.remove 1)]).renderer.html b [.string "y"]).2 = .ok y ∧
      (renderer.render d x 2).2.2 ≠ .ok () ∧
      d.Refilled (renderer.render d x 0).2.1 0 ∧
      (renderer.render d x 0).1.isRendered 0 = true ∧
      (renderer.render d x 0).2.1.SamePlaces
        ((renderer.render d x 0).1.render (renderer.render d x 0).2.1 y 0).2.1 := by
  intro d b renderer
  let f : Forest Content :=
    .cons (.element { tag := "b" }) (.cons (.comment "stamp-marker:0") .nil .nil) .nil
  have hf : f.Printable := ⟨by decide +kernel, by decide⟩
  obtain ⟨t, hb⟩ : ∃ t, b.compile = .ok t :=
    ⟨_, CallSite.compile_of_printable hf (by decide +kernel) (by decide +kernel)⟩
  have hgiven : ∀ (events : List Event) (v : Value),
      ((start d none).play events).renderer = { cache := {} } →
      (((start d none).play events).renderer.html b [v]).2 = .ok ⟨t, .array [v]⟩ := by
    intro events v h
    rw [h]
    simp [b, Renderer.html, TemplateCache.getOrCompile, TemplateCache.peek?, Entries.lookup?, hb]
  have hx := hgiven [] (.string "x") rfl
  have hy := hgiven [.edit (.remove 1)] (.string "y") rfl
  have hd : d.Reachable := Document.Reachable.empty.step (.plant _)
  obtain ⟨hmissing, -⟩ := rendering_leaks_nothing hx hd renderer 2
  obtain ⟨hfails, -, hrefilled, -⟩ := rendering_leaks_nothing hx hd renderer 0
  have hlive : d.contains 0 = true := by decide
  have hfirst := hrefilled hlive rfl
  have hok : (renderer.render d ⟨t, .array [.string "x"]⟩ 0).2.2 = .ok () :=
    Decidable.not_not.1 fun h => Bool.false_ne_true ((hfails.1 h).symm.trans hlive)
  have hrendered := (Renderer.isRendered_render_iff renderer d _ 0 0).2 (.inl ⟨rfl, hok⟩)
  obtain ⟨-, -, -, hsame⟩ := rendering_leaks_nothing hy
    (hd.render renderer ⟨t, .array [.string "x"]⟩ 0) (renderer.render d _ 0).1 0
  exact ⟨_, _, hx, hy, hmissing.2 (by decide), hfirst, hrendered,
    hsame ((hfirst.contains 0).2 (.inl ⟨hlive, by decide⟩)) hrendered⟩

end Session

end MarkupTemplate
