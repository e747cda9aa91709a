import MarkupTemplate.Proofs.CallSite.Cache
import MarkupTemplate.Proofs.Renderer.Container

/-!
# A renderer at work

A `Session` is a renderer at work on one document. Its calls may come in any order, and the only
agreement is that no container stands inside another: then nothing that is done to one container
reaches another, and each shows the template that was rendered into it first with the data that was
rendered into it last.

What holds between two calls is `Consistent`, relative to what was put into each container first.
Each call keeps it (`Consistent.call`), so it holds after all of them (`Consistent.run`).

Results:
* `Consistent.render`: what a call does that renders a result into a container.
* `Session.render_succeeds_iff`: it succeeds where there is a result and a container.
* `Session.render_shows_latest`: after it the container shows its first template with this data, in
  the nodes that were put there first, and all else is as it was.
-/

namespace MarkupTemplate

/-! ## Sessions -/

/-- A renderer at work on a document. -/
structure Session where
  /-- The document. -/
  doc : Document
  /-- The renderer. -/
  renderer : Renderer
  /-- The results that its call sites have given, in order. -/
  results : List TemplateResult := []

/-- A call of a renderer. Results are named by their place among all results so far. -/
inductive Call where
  /-- A call site gives a result for values. -/
  | html (site : CallSite) (values : List Value)
  /-- A result is rendered into a container. -/
  | render (result : Nat) (container : Handle)
  /-- A container is removed and forgotten. -/
  | discard (container : Handle)
  /-- Containers that are no longer there are forgotten. -/
  | retainLive

/-- The container that a call names, if it names one. -/
def Call.container? : Call → Option Handle
  | render _ c | discard c => some c
  | html _ _ | retainLive => none

namespace Session

/-- A new renderer for a document. -/
def start (d : Document) (capacity : Capacity) : Session where
  doc := d
  renderer := { cache := { capacity } }

/-- The session after a result has been rendered into a container, and whether it could be. -/
def render (s : Session) (result : Nat) (container : Handle) : Session × Bool :=
  match s.results[result]? with
  | none => (s, false)
  | some result =>
    let (renderer, doc, outcome) := s.renderer.render s.doc result container
    ({ s with renderer, doc }, outcome.isOk)

/-- The session after a call, as far as it goes where it fails. -/
def call (s : Session) : Call → Session
  | .html site values =>
    match s.renderer.html site values with
    | (renderer, .ok result) => { s with renderer, results := s.results ++ [result] }
    | (renderer, .error _) => { s with renderer }
  | .render result container => (s.render result container).1
  | .discard container =>
    let (renderer, doc, _) := s.renderer.discard s.doc container
    { s with renderer, doc }
  | .retainLive => { s with renderer := (s.renderer.retainLive s.doc).1 }

/-- The session after calls, one after the other. -/
def run (s : Session) (calls : List Call) : Session :=
  calls.foldl call s

/-- The template that a call renders into the container `c`, and the nodes that are there then. -/
def shown? (s : Session) (c : Handle) : Call → Option (Template × List Handle)
  | .render result container =>
    if container = c ∧ (s.render result container).2 = true then
      s.results[result]?.map fun r =>
        (r.template, (s.call (.render result container)).doc.children c)
    else none
  | _ => none

/-- The template that the first successful rendering put into the container `c`, and the nodes that
were there then. -/
def firstShown? (s : Session) (c : Handle) : List Call → Option (Template × List Handle)
  | [] => none
  | call :: calls => (s.shown? c call).or ((s.call call).firstShown? c calls)

/-- Rendering gives no results. -/
@[simp] theorem results_render (s : Session) (k : Nat) (c : Handle) :
    (s.render k c).1.results = s.results := by
  unfold render
  cases s.results[k]? <;> rfl

theorem shown?_render {s : Session} {k : Nat} {c : Handle} {result : TemplateResult}
    (hk : s.results[k]? = some result) (hok : (s.render k c).2 = true) :
    s.shown? c (.render k c) = some (result.template, (s.render k c).1.doc.children c) := by
  rw [shown?, if_pos ⟨rfl, hok⟩, hk]
  rfl

theorem firstShown?_append (s : Session) (c : Handle) (calls calls' : List Call) :
    s.firstShown? c (calls ++ calls') =
      (s.firstShown? c calls).or ((s.run calls).firstShown? c calls') := by
  induction calls generalizing s with
  | nil => rfl
  | cons call calls ih =>
    rw [List.cons_append, firstShown?, firstShown?, ih, Option.or_assoc]
    rfl

end Session

/-! ## What call sites give -/

/-- The templates in a cache were written as call sites. -/
def TemplateCache.Written (c : TemplateCache) : Prop :=
  ∀ e ∈ c.entries, e.2.template.Authored

/-- A result of a call site: its template was written, and its data is not absent. -/
structure TemplateResult.Given (r : TemplateResult) : Prop where
  /-- The template was written. -/
  authored : r.template.Authored
  /-- The data is not absent. -/
  values : r.values.isNull = false

/-- A call site gets a written template, from the cache or by being compiled. -/
theorem TemplateCache.Written.getOrCompile {c : TemplateCache} (hc : c.Written)
    (site : CallSite) : (c.getOrCompile site).1.Written ∧
      ∀ t, (c.getOrCompile site).2 = .ok t → t.template.Authored :=
  forall_getOrCompile (P := fun _ t => t.Authored) hc fun _ ht => .ofCallSite ht

/-- A call site gives a result, or none; what was rendered stays. -/
theorem Renderer.html_given {r : Renderer} (hr : r.cache.Written) (site : CallSite)
    (values : List Value) : (r.html site values).1.cache.Written ∧
      (r.html site values).1.rendered = r.rendered ∧
      ∀ result, (r.html site values).2 = .ok result → result.Given := by
  obtain ⟨hcache, htemplate⟩ := hr.getOrCompile site
  unfold html
  split
  · exact ⟨hr, rfl, fun _ h => by cases h⟩
  · refine ⟨hcache, rfl, ?_⟩
    intro result h
    dsimp only at h
    split at h
    · next t ht =>
      obtain rfl := Except.ok.inj h
      exact ⟨htemplate t ht, rfl⟩
    · cases h

/-! ## Between two calls -/

/-- What is remembered of a container, where `shown?` was put into it first. -/
def Session.Remembers (s : Session) (c : Handle) : Option (Template × List Handle) → Prop
  | none => s.renderer.updater? c = none
  | some (t, nodes) => ∃ u v, s.renderer.updater? c = some u ∧ s.doc.Shows c u t v ∧
    s.doc.children c = nodes

/-- The state of a session between two calls, where `first` was put into each container first. -/
structure Session.Consistent (s : Session) (containers : List Handle)
    (first : Handle → Option (Template × List Handle)) : Prop where
  /-- The document is well-formed. -/
  wellFormed : s.doc.WellFormed
  /-- The containers were there at the start. -/
  given : ∀ c ∈ containers, c < s.doc.next
  /-- No container stands inside another. -/
  apart : ∀ c ∈ containers, ∀ c' ∈ containers, c ≠ c' → c ∉ s.doc.descendants c'
  /-- The cached templates were written. -/
  cached : s.renderer.cache.Written
  /-- So were those of the results. -/
  results : ∀ r ∈ s.results, r.Given
  /-- What is in a container is remembered for as long as it is there. -/
  remembers : ∀ c ∈ containers, s.doc.contains c = true → s.Remembers c (first c)

namespace Session

theorem consistent_start {d : Document} (hd : d.WellFormed) (capacity : Capacity)
    {containers : List Handle} (hlive : ∀ c ∈ containers, d.contains c = true)
    (hapart : ∀ c ∈ containers, ∀ c' ∈ containers, c ≠ c' → c ∉ d.descendants c') :
    (start d capacity).Consistent containers fun _ => none where
  wellFormed := hd
  given := fun c hc => hd.fresh c (Document.contains_iff.1 (hlive c hc))
  apart := hapart
  cached := fun _ he => absurd he List.not_mem_nil
  results := fun _ hr => absurd hr List.not_mem_nil
  remembers := fun _ _ _ => rfl

/-- What is remembered of a container that nothing was done to. -/
theorem Remembers.of_eq {s s' : Session} {c : Handle} {x : Option (Template × List Handle)}
    (h : s.Remembers c x) (hd : s'.doc.WellFormed) (htree : s'.doc.tree? c = s.doc.tree? c)
    (hupdater : s'.renderer.updater? c = s.renderer.updater? c) : s'.Remembers c x := by
  cases x with
  | none => exact hupdater.trans h
  | some x =>
    obtain ⟨u, v, hu, hshows, hchildren⟩ := h
    refine ⟨u, v, hupdater.trans hu, hshows.of_tree?_eq hd htree, ?_⟩
    rw [Document.children, htree]
    exact hchildren

section

variable {s : Session} {containers : List Handle}
  {first : Handle → Option (Template × List Handle)} (h : s.Consistent containers first)

include h

/-- **What rendering a result does.** The children of the container are exchanged for what shows the
template that was there first, or that of the result if there was none; nothing else is done to the
document, and nothing is forgotten. -/
theorem Consistent.render {c : Handle} (hc : c ∈ containers) (hlive : s.doc.contains c = true)
    {k : Nat} {result : TemplateResult} (hk : s.results[k]? = some result) :
    ∃ s' u t new, s.render k c = (s', true) ∧ s.doc.Exchange s'.doc c new ∧
      s'.doc.Shows c u t result.values ∧
      (first c).or (some (result.template, s'.doc.children c)) = some (t, s'.doc.children c) ∧
      s'.renderer.cache = s.renderer.cache ∧ s'.renderer.updater? c = some u ∧
      ∀ c', c' ≠ c → s'.renderer.updater? c' = s.renderer.updater? c' := by
  have hgiven := h.results result (List.mem_of_getElem? hk)
  have hremembers := h.remembers c hc hlive
  have hrender : ∀ {r d}, s.renderer.render s.doc result c = (r, d, .ok ()) →
      s.render k c = (⟨d, r, s.results⟩, true) := by
    intro r d hr
    unfold Session.render
    rw [hk]
    simp only [hr]
    rfl
  cases hfirst : first c with
  | none =>
    -- nothing was rendered here, so an instance is made
    rw [hfirst] at hremembers
    obtain ⟨t, ht⟩ := Option.isSome_iff_exists.1 hlive
    obtain ⟨d, u, new, hplace, hexchange, -, hshows⟩ :=
      s.renderer.place_eq hgiven.authored hgiven.values h.wellFormed ht
    have hnone : s.renderer.updater? c = none := hremembers
    refine ⟨⟨d, { s.renderer with rendered := Entries.insert s.renderer.rendered c u }, s.results⟩,
      u, result.template, new, hrender ?_, hexchange, hshows, rfl, rfl,
      Entries.lookup?_insert_self _ _ _, fun c' hne => Entries.lookup?_insert_ne _ _ hne⟩
    unfold Renderer.render
    rw [hlive, hnone]
    exact hplace
  | some x =>
    obtain ⟨t, nodes⟩ := x
    rw [hfirst] at hremembers
    obtain ⟨u, v, hu, hshows, rfl⟩ := hremembers
    obtain ⟨new, hexchange, hupdated, hnodes⟩ := hshows.update result.values
    refine ⟨⟨s.doc.update u result.values, s.renderer, s.results⟩, u, t, new, hrender ?_,
      hexchange, hupdated, ?_, rfl, hu, fun _ _ => rfl⟩
    · unfold Renderer.render
      rw [hlive, hu]
      rfl
    · rw [Option.some_or, hnodes]

end

/-- Without a result or a container nothing is done. -/
theorem render_of_not {s : Session} {k : Nat} {c : Handle}
    (h : ¬(k < s.results.length ∧ s.doc.contains c = true)) : s.render k c = (s, false) := by
  unfold Session.render
  cases hk : s.results[k]? with
  | none => rfl
  | some result =>
    have hlength : k < s.results.length := (List.getElem?_eq_some_iff.1 hk).1
    have hmissing : s.doc.contains c = false := by
      rw [← Bool.not_eq_true]
      exact fun hlive => h ⟨hlength, hlive⟩
    simp only [Renderer.render_missing hmissing]
    rfl

section

variable {s : Session} {containers : List Handle}
  {first : Handle → Option (Template × List Handle)} (h : s.Consistent containers first)

include h

/-- **A result can be rendered** where there is one, and where there is the container. -/
theorem Consistent.render_succeeds_iff {c : Handle} (hc : c ∈ containers) {k : Nat} :
    (s.render k c).2 = true ↔ k < s.results.length ∧ s.doc.contains c = true := by
  constructor
  · intro hok
    by_contra hnot
    rw [render_of_not hnot] at hok
    cases hok
  · rintro ⟨hk, hlive⟩
    obtain ⟨s', -, -, -, hs', -⟩ := h.render hc hlive (List.getElem?_eq_getElem hk)
    rw [hs']

/-- **An exchange in one container** leaves what stands under the others as it is. -/
theorem Consistent.tree?_apart {c : Handle} (hc : c ∈ containers)
    (hlive : s.doc.contains c = true) {d' : Document} {new : Forest Node}
    (hexchange : s.doc.Exchange d' c new) {c' : Handle} (hc' : c' ∈ containers) (hne : c' ≠ c) :
    d'.tree? c' = s.doc.tree? c' :=
  have ⟨_, ht⟩ := Option.isSome_iff_exists.1 hlive
  hexchange.tree?_apart ht h.wellFormed (h.given c' hc') (h.apart c hc c' hc' hne.symm)
    (h.apart c' hc' c hc hne)

/-- A call that leaves the document and the updaters alone keeps a session consistent. -/
theorem Consistent.of_doc_eq {s' : Session} (hdoc : s'.doc = s.doc)
    (hupdater : ∀ c, s.doc.contains c = true → s'.renderer.updater? c = s.renderer.updater? c)
    (hcached : s'.renderer.cache.Written) (hresults : ∀ r ∈ s'.results, r.Given) :
    s'.Consistent containers first where
  wellFormed := hdoc ▸ h.wellFormed
  given := hdoc ▸ h.given
  apart := hdoc ▸ h.apart
  cached := hcached
  results := hresults
  remembers := by
    intro c hc hlive
    rw [hdoc] at hlive
    exact (h.remembers c hc hlive).of_eq (hdoc ▸ h.wellFormed) (by rw [hdoc]) (hupdater c hlive)

theorem Consistent.html (site : CallSite) (values : List Value) :
    (s.call (.html site values)).Consistent containers first := by
  obtain ⟨hcache, hrendered, hresult⟩ := s.renderer.html_given h.cached site values
  have hupdater : ∀ c, (s.renderer.html site values).1.updater? c = s.renderer.updater? c := by
    intro c
    rw [Renderer.updater?, hrendered]
    rfl
  unfold Session.call
  simp only
  split
  · next r result hr =>
    rw [hr] at hcache hupdater hresult
    refine h.of_doc_eq rfl (fun c _ => hupdater c) hcache fun x hx => ?_
    rcases List.mem_append.1 hx with hx | hx
    · exact h.results x hx
    · exact List.mem_singleton.1 hx ▸ hresult result rfl
  · next r e hr =>
    rw [hr] at hcache hupdater
    exact h.of_doc_eq rfl (fun c _ => hupdater c) hcache h.results

theorem Consistent.retainLive : (s.call .retainLive).Consistent containers first :=
  h.of_doc_eq rfl
    (fun _ hlive =>
      Entries.lookup?_filter s.renderer.rendered (p := fun c => s.doc.contains c) hlive)
    h.cached h.results

theorem Consistent.discard {c : Handle} (hc : c ∈ containers) :
    (s.call (.discard c)).Consistent containers first := by
  have htree : ∀ c' ∈ containers, c' ≠ c → (s.doc.remove c).tree? c' = s.doc.tree? c' :=
    fun c' hc' hne => h.wellFormed.tree?_remove_apart hne (h.apart c hc c' hc' hne.symm)
      (h.apart c' hc' c hc hne)
  have hgone : (s.doc.remove c).tree? c = none :=
    Option.isSome_eq_false_iff.1 (s.doc.contains_remove_self c) |> Option.isNone_iff_eq_none.1
  have hwf : (s.doc.remove c).WellFormed := h.wellFormed.step (.remove c)
  refine ⟨hwf, h.given, fun c₁ h₁ c₂ h₂ hne => ?_, h.cached, h.results, fun c' hc' hlive => ?_⟩
  · show c₁ ∉ (s.doc.remove c).descendants c₂
    by_cases h₂c : c₂ = c
    · rw [h₂c, Document.descendants, hgone]
      exact List.not_mem_nil
    · rw [Document.descendants, htree c₂ h₂ h₂c]
      exact h.apart c₁ h₁ c₂ h₂ hne
  · have hne : c' ≠ c := by
      rintro rfl
      rw [show (s.call (.discard c')).doc = s.doc.remove c' from rfl,
        s.doc.contains_remove_self] at hlive
      cases hlive
    have hlive' : s.doc.contains c' = true := by
      rw [Document.contains, ← htree c' hc' hne]
      exact hlive
    exact (h.remembers c' hc' hlive').of_eq hwf (htree c' hc' hne)
      (Entries.lookup?_filter s.renderer.rendered (p := fun x => decide (x ≠ c))
        (decide_eq_true hne))

theorem Consistent.rendered {c : Handle} (hc : c ∈ containers) (k : Nat) :
    (s.call (.render k c)).Consistent containers
      fun c' => (first c').or (s.shown? c' (.render k c)) := by
  by_cases hcan : k < s.results.length ∧ s.doc.contains c = true
  · obtain ⟨hk, hlive⟩ := hcan
    obtain ⟨s', u, t, new, hs', hexchange, hshows, hfirst, hcache, hupdater, hothers⟩ :=
      h.render hc hlive (List.getElem?_eq_getElem hk)
    obtain ⟨x, hx⟩ := Option.isSome_iff_exists.1 hlive
    have hcall : s.call (.render k c) = s' := congrArg Prod.fst hs'
    have hresults : s'.results = s.results := by rw [← hcall, Session.call, results_render]
    have htree : ∀ c' ∈ containers, c' ≠ c → s'.doc.tree? c' = s.doc.tree? c' :=
      fun _ => h.tree?_apart hc hlive hexchange
    rw [hcall]
    refine ⟨hexchange.wellFormed, fun c' hc' => Nat.lt_of_lt_of_le (h.given c' hc') hexchange.next,
      fun c₁ h₁ c₂ h₂ hne => ?_, hcache ▸ h.cached, hresults ▸ h.results, fun c' hc' hlive' => ?_⟩
    · by_cases h₂c : c₂ = c
      · rw [h₂c] at hne ⊢
        exact hexchange.not_mem_descendants hx (h.given c₁ h₁) (h.apart c₁ h₁ c hc hne)
      · rw [Document.descendants, htree c₂ h₂ h₂c]
        exact h.apart c₁ h₁ c₂ h₂ hne
    · by_cases hne : c' = c
      · subst hne
        rw [shown?_render (List.getElem?_eq_getElem hk) (by rw [hs']), hs', hfirst]
        exact ⟨u, _, hupdater, hshows, rfl⟩
      · have hshown : s.shown? c' (.render k c) = none := if_neg fun hand => hne hand.1.symm
        rw [hshown, Option.or_none]
        rw [Document.contains, htree c' hc' hne] at hlive'
        exact (h.remembers c' hc' hlive').of_eq hexchange.wellFormed (htree c' hc' hne)
          (hothers c' hne)
  · have hnothing := render_of_not hcan
    have hshown : ∀ c', s.shown? c' (.render k c) = none := by
      intro c'
      rw [shown?, hnothing]
      exact if_neg fun hand => Bool.false_ne_true hand.2
    have hcall : s.call (.render k c) = s := congrArg Prod.fst hnothing
    simp only [hshown, hcall, Option.or_none]
    exact h

/-- **Each call keeps a session consistent**, if it names no other container. -/
theorem Consistent.call {call : Call} (hcall : ∀ c ∈ call.container?, c ∈ containers) :
    (s.call call).Consistent containers fun c => (first c).or (s.shown? c call) := by
  cases call with
  | html site values =>
    simp only [shown?, Option.or_none]
    exact h.html site values
  | render k c => exact h.rendered (hcall c rfl) k
  | discard c =>
    simp only [shown?, Option.or_none]
    exact h.discard (hcall c rfl)
  | retainLive =>
    simp only [shown?, Option.or_none]
    exact h.retainLive

/-- **So do any calls**, one after the other. -/
theorem Consistent.run {calls : List Call}
    (hcalls : ∀ call ∈ calls, ∀ c ∈ call.container?, c ∈ containers) :
    (s.run calls).Consistent containers fun c => (first c).or (s.firstShown? c calls) := by
  induction calls generalizing s first with
  | nil =>
    simp only [firstShown?, Option.or_none]
    exact h
  | cons call calls ih =>
    have hstep := h.call (hcalls call List.mem_cons_self)
    have := ih hstep fun x hx => hcalls x (List.mem_cons_of_mem call hx)
    simp only [Option.or_assoc] at this
    exact this

end

/-! ## All calls -/

/-- **A container shows its first template with its latest data.** A new renderer is at work on a
document, over containers of which none stands inside another, with any calls in any order. After a
result has been rendered into a container, the trees under the container are the top-level nodes of
a fresh instance, with this data, of the template that was rendered into it first; they are the
nodes that were put there then; and the trees under all other containers, and all other nodes that
are not under the container, are as they were. -/
theorem render_shows_latest {d : Document} (hd : d.WellFormed) (capacity : Capacity)
    {containers : List Handle} (hlive : ∀ c ∈ containers, d.contains c = true)
    (hapart : ∀ c ∈ containers, ∀ c' ∈ containers, c ≠ c' → c ∉ d.descendants c')
    {calls : List Call} (hcalls : ∀ call ∈ calls, ∀ c ∈ call.container?, c ∈ containers)
    {k : Nat} {c : Handle} (hc : c ∈ containers)
    (hok : (((start d capacity).run calls).render k c).2 = true) :
    let before := (start d capacity).run calls
    let after := (before.render k c).1
    ∃ result t nodes, before.results[k]? = some result ∧
      (start d capacity).firstShown? c (calls ++ [.render k c]) = some (t, nodes) ∧
      (∀ d₀ : Document, d₀.WellFormed → ∃ d₁ i,
        t.instantiate d₀ (some result.values) = (d₁, .ok i) ∧
          (after.doc.children c).map after.doc.shape? = (d₁.instanceNodes i).map d₁.shape?) ∧
      after.doc.children c = nodes ∧
      (∀ c' ∈ containers, c' ≠ c → after.doc.tree? c' = before.doc.tree? c') ∧
      before.doc.SameOutside after.doc c := by
  intro before after
  have h := (consistent_start hd capacity hlive hapart).run hcalls
  simp only [Option.none_or] at h
  obtain ⟨hk, hlive'⟩ := (h.render_succeeds_iff hc).1 hok
  have hresult : before.results[k]? = some before.results[k] := List.getElem?_eq_getElem hk
  obtain ⟨s', u, t, new, hs', hexchange, hshows, hfirst, -, -, -⟩ := h.render hc hlive' hresult
  obtain rfl : after = s' := congrArg Prod.fst hs'
  obtain ⟨x, hx⟩ := Option.isSome_iff_exists.1 hlive'
  have hgiven := h.results _ (List.getElem_mem hk)
  refine ⟨_, t, _, hresult, ?_, fun d₀ hd₀ => hshows.map_shape?_children hgiven.values hd₀, rfl,
    fun _ => h.tree?_apart hc hlive' hexchange, hexchange.sameOutside hx h.wellFormed⟩
  rw [firstShown?_append, firstShown?, firstShown?, Option.or_none, shown?_render hresult hok]
  exact hfirst

/-- Two call sites are rendered into one container of two; the second one shows in the first one's
element. -/
theorem render_shows_latest_bold :
    let d : Document :=
      { forest := .cons ⟨0, .element { tag := "div" }⟩
          (.cons ⟨1, .element { tag := "p" }⟩ (.cons ⟨2, .text "old"⟩ .nil .nil)
            (.cons ⟨3, .element { tag := "p" }⟩ .nil .nil)) .nil, next := 4 }
    let calls : List Call := [.html ⟨0, ["<b>", "</b>"]⟩ [.string "x"],
      .html ⟨1, ["<i>", "</i>"]⟩ [.string "y"], .render 0 1]
    let before := (start d none).run calls
    let after := (before.render 1 1).1
    (before.render 1 1).2 = true ∧
      (after.doc.children 1).map after.doc.shape? =
        [some ⟨.element { tag := "b" }, .cons (.text "y") .nil .nil⟩] ∧
      ∃ t nodes, (start d none).firstShown? 1 (calls ++ [.render 1 1]) = some (t, nodes) ∧
        after.doc.children 1 = nodes ∧ after.doc.tree? 3 = before.doc.tree? 3 ∧
        ∃ d₁ i, t.instantiate .empty (some (.array [.string "y"])) = (d₁, .ok i) ∧
          (after.doc.children 1).map after.doc.shape? = (d₁.instanceNodes i).map d₁.shape? := by
  intro d calls before after
  let f (tag : String) : Forest Content :=
    .cons (.element { tag }) (.cons (.comment "stamp-marker:0") .nil .nil) .nil
  let compiled (tag : String) : Template :=
    ⟨some (.ofFragment ((f tag).map Forest.withoutGaps)), (f tag).gapDescriptors 0⟩
  have hb : (CallSite.mk 0 ["<b>", "</b>"]).compile = .ok (compiled "b") := by
    have hf : (f "b").Printable := ⟨by decide +kernel, by decide⟩
    refine CallSite.compile_eq_ok_iff.2 ⟨f "b", ?_, by decide +kernel, rfl⟩
    rw [show String.ofList _ = (f "b").toMarkup by decide +kernel, Markup.parse_toMarkup hf]
  have hi : (CallSite.mk 1 ["<i>", "</i>"]).compile = .ok (compiled "i") := by
    have hf : (f "i").Printable := ⟨by decide +kernel, by decide⟩
    refine CallSite.compile_eq_ok_iff.2 ⟨f "i", ?_, by decide +kernel, rfl⟩
    rw [show String.ofList _ = (f "i").toMarkup by decide +kernel, Markup.parse_toMarkup hf]
  let made : Session :=
    ⟨d, { cache := {
        entries := [(0, ⟨0, compiled "b"⟩), (1, ⟨1, compiled "i"⟩)], compilations := 2 } },
      [⟨compiled "b", .array [.string "x"]⟩, ⟨compiled "i", .array [.string "y"]⟩]⟩
  have hmade : before = (made.render 0 1).1 := by
    simp [before, calls, run, Session.call, start, Renderer.html, TemplateCache.getOrCompile,
      TemplateCache.peek?, TemplateCache.touch, TemplateCache.limit, Entries.lookup?,
      Entries.insert, hb, hi, made]
  have hok : (before.render 1 1).2 = true := by
    rw [hmade]
    decide +kernel
  have hd : d.WellFormed := ⟨by decide, by decide⟩
  have hlive : ∀ c ∈ [1, 3], d.contains c = true := by decide
  have hapart : ∀ c ∈ [1, 3], ∀ c' ∈ [1, 3], c ≠ c' → c ∉ d.descendants c' := by decide
  have hcalls : ∀ call ∈ calls, ∀ c ∈ call.container?, c ∈ [1, 3] := by decide
  obtain ⟨result, t, nodes, hresult, hfirst, hfresh, hnodes, hothers, -⟩ :=
    render_shows_latest hd none hlive hapart hcalls List.mem_cons_self hok
  refine ⟨hok, ?_, t, nodes, hfirst, hnodes, hothers 3 (by decide) (by decide), ?_⟩
  · rw [show after = (((made.render 0 1).1).render 1 1).1 by rw [← hmade]]
    decide +kernel
  · have hlast : before.results[1]? = some result := hresult
    rw [hmade, results_render] at hlast
    obtain rfl := Option.some.inj hlast
    exact hfresh .empty Document.wellFormed_empty

end Session

end MarkupTemplate
