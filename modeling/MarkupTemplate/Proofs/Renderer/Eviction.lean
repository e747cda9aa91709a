import MarkupTemplate.Proofs.CallSite.Cache
import MarkupTemplate.Proofs.Document.Operation
import MarkupTemplate.Proofs.Renderer.Session

/-!
# Eviction cannot be seen

Two renderers with caches of different capacities compile the same call sites at different times, so
at one point the template of a result is an old one here and a new one there. They do the same all
the same. What a call site is compiled to does not depend on when that is done, so all that holds of
the caches is that each template is the one of its call site (`TemplateCache.Faithful`), and nothing
but `Renderer.html` looks at them.

Two sessions that differ in such caches only are `Alike`. Whatever happens in both is answered alike
and leaves them alike (`Alike.step`).

Results:
* `TemplateCache.Faithful.getOrCompile`: asking the cache comes to compiling.
* `Renderer.render_cache`: rendering does not look at the cache.
* `Session.eviction_is_invisible`: with any two capacities, the same events get the same answers,
  and the documents are the same after each of them.
-/

namespace MarkupTemplate

/-! ## Caches with the right templates -/

/-- Each template in a cache is the one that the call site with its key is compiled to. -/
def TemplateCache.Faithful (sites : List CallSite) (c : TemplateCache) : Prop :=
  ∀ e ∈ c.entries, ∀ site ∈ sites, site.id = e.1 → site.compile = .ok e.2.template

/-- The outcome of asking for the template of a call site where none is kept. -/
def CallSite.template (site : CallSite) : Except SiteError Template :=
  site.compile.mapError (SiteError.mk site.id)

/-- The outcome of asking for the result of a call site where no template is kept. -/
def CallSite.result (site : CallSite) (values : List Value) : Except HtmlError TemplateResult :=
  if site.fragments.length ≠ values.length + 1 then
    .error (.arity site.id site.fragments.length values.length)
  else
    match site.template with
    | .ok template => .ok { template, values := .array values }
    | .error e => .error (.compile e)

section

variable {sites : List CallSite} (hsites : ∀ a ∈ sites, ∀ b ∈ sites, a.id = b.id → a = b)
  {c : TemplateCache} (hc : c.Faithful sites)

include hsites hc

/-- **Asking the cache comes to compiling.** -/
theorem TemplateCache.Faithful.getOrCompile {site : CallSite} (hsite : site ∈ sites) :
    (c.getOrCompile site).1.Faithful sites ∧
      (c.getOrCompile site).2.map Cached.template = site.template := by
  have hmade : ∀ t, site.compile = .ok t → ∀ a ∈ sites, a.id = site.id → a.compile = .ok t := by
    intro t ht a ha hid
    rw [hsites a ha site hsite hid, ht]
  obtain ⟨hfaithful, hgiven⟩ := forall_getOrCompile
    (P := fun id t => ∀ a ∈ sites, a.id = id → a.compile = .ok t) hc hmade
  refine ⟨hfaithful, ?_⟩
  unfold CallSite.template
  rcases c.getOrCompile_cases site with ⟨t, -, h⟩ | ⟨t, -, ht, h⟩ | ⟨e, -, he, h⟩
  · -- it was compiled when it was put there
    rw [h, hgiven t (congrArg Prod.snd h) site hsite rfl]
    rfl
  · rw [h, ht]
    rfl
  · rw [h, he]
    rfl

/-- So a call site gives the same result from any such cache. -/
theorem Renderer.html_faithful (rendered : List (Handle × Updater)) {site : CallSite}
    (hsite : site ∈ sites) (values : List Value) :
    ∃ c' : TemplateCache, c'.Faithful sites ∧
      (Renderer.mk c rendered).html site values = (⟨c', rendered⟩, site.result values) := by
  unfold CallSite.result
  by_cases hlength : site.fragments.length = values.length + 1
  · obtain ⟨hfaithful, htemplate⟩ := hc.getOrCompile hsites hsite
    refine ⟨_, hfaithful, ?_⟩
    rw [Renderer.html_of_length _ hlength, if_neg (not_not.2 hlength), ← htemplate]
    cases (c.getOrCompile site).2 <;> rfl
  · refine ⟨c, hc, ?_⟩
    rw [Renderer.html_of_length_ne _ hlength, if_pos hlength]

end

/-- **Rendering does not look at the cache.** -/
theorem Renderer.render_cache (rendered : List (Handle × Updater)) (d : Document)
    (result : TemplateResult) (container : Handle) :
    ∃ rendered' d' outcome, ∀ c, (Renderer.mk c rendered).render d result container =
      (⟨c, rendered'⟩, d', outcome) := by
  unfold render place updater?
  simp only
  cases d.contains container with
  | false => exact ⟨_, _, _, fun _ => rfl⟩
  | true =>
    cases Entries.lookup? rendered container with
    | some u => exact ⟨_, _, _, fun _ => rfl⟩
    | none =>
      obtain ⟨d', made⟩ :=
        result.template.instantiate (d.clearChildren container) (some result.values)
      cases made with
      | error e => exact ⟨_, _, _, fun _ => rfl⟩
      | ok i =>
        dsimp only
        obtain ⟨d'', appended⟩ := d'.append container i.root
        cases appended with
        | error e => exact ⟨_, _, _, fun _ => rfl⟩
        | ok _ => exact ⟨_, _, _, fun _ => rfl⟩

/-! ## Events -/

/-- What may happen while a renderer is at work on a document. -/
inductive Event where
  /-- The renderer is called. -/
  | call (call : Call)
  /-- The renderer is asked whether something was rendered into a container. -/
  | isRendered (container : Handle)
  /-- Something else is done to the document. -/
  | edit (op : Operation)

/-- The call site that an event names, if it names one. -/
def Event.site? : Event → Option CallSite
  | call (.html site _) => some site
  | _ => none

/-- What comes back to whoever makes something happen. -/
inductive Answer where
  /-- A result, or why there is none. -/
  | html (outcome : Except HtmlError TemplateResult)
  /-- Whether a result was rendered, and why not; nothing, if there is no such result. -/
  | render (outcome : Option (Except PlacementError Unit))
  /-- Whether something had been rendered into a container. -/
  | discard (wasRendered : Bool)
  /-- How many containers were forgotten. -/
  | retainLive (dropped : Nat)
  /-- Whether something was rendered into a container. -/
  | isRendered (rendered : Bool)
  /-- Nothing. -/
  | edit

namespace Session

/-- The answer to an event. -/
def answer (s : Session) : Event → Answer
  | .call (.html site values) => .html (s.renderer.html site values).2
  | .call (.render result container) =>
    .render (s.results[result]?.map fun r => (s.renderer.render s.doc r container).2.2)
  | .call (.discard container) => .discard (s.renderer.discard s.doc container).2.2
  | .call .retainLive => .retainLive (s.renderer.retainLive s.doc).2
  | .isRendered container => .isRendered (s.renderer.isRendered container)
  | .edit _ => .edit

/-- The session after an event. -/
def after (s : Session) : Event → Session
  | .call call => s.call call
  | .isRendered _ => s
  | .edit op => { s with doc := s.doc.perform op }

/-- The answers to events, one after the other, each with the document after it. -/
def trace (s : Session) : List Event → List (Answer × Document)
  | [] => []
  | e :: events => (s.answer e, (s.after e).doc) :: (s.after e).trace events

/-- Two sessions that differ only in their caches, which have the right templates. -/
structure Alike (sites : List CallSite) (s s' : Session) : Prop where
  /-- The documents are the same. -/
  doc : s'.doc = s.doc
  /-- The same was rendered into the same containers. -/
  rendered : s'.renderer.rendered = s.renderer.rendered
  /-- The call sites have given the same results. -/
  results : s'.results = s.results
  /-- The templates in the one cache are right. -/
  left : s.renderer.cache.Faithful sites
  /-- So are those in the other. -/
  right : s'.renderer.cache.Faithful sites

theorem alike_start (sites : List CallSite) (d : Document) (capacity capacity' : Capacity) :
    Alike sites (start d capacity) (start d capacity') where
  doc := rfl
  rendered := rfl
  results := rfl
  left := fun _ he => absurd he List.not_mem_nil
  right := fun _ he => absurd he List.not_mem_nil

section

variable {sites : List CallSite} (hsites : ∀ a ∈ sites, ∀ b ∈ sites, a.id = b.id → a = b)
  {s s' : Session} (h : Alike sites s s')

include hsites h

/-- **An event is answered alike**, and leaves alike what was. -/
theorem Alike.step {e : Event} (he : ∀ site ∈ e.site?, site ∈ sites) :
    s.answer e = s'.answer e ∧ Alike sites (s.after e) (s'.after e) := by
  obtain ⟨d, ⟨c, rendered⟩, results⟩ := s
  obtain ⟨d', ⟨c', rendered'⟩, results'⟩ := s'
  obtain ⟨rfl, rfl, rfl, hc, hc'⟩ := h
  cases e with
  | call call =>
    cases call with
    | html site values =>
      have hsite : site ∈ sites := he site rfl
      obtain ⟨_, hleft, hhtml⟩ := Renderer.html_faithful hsites hc rendered' hsite values
      obtain ⟨_, hright, hhtml'⟩ := Renderer.html_faithful hsites hc' rendered' hsite values
      refine ⟨by rw [answer, answer, hhtml, hhtml'], ?_⟩
      simp only [after, Session.call]
      rw [hhtml, hhtml']
      cases site.result values with
      | ok result => exact ⟨rfl, rfl, rfl, hleft, hright⟩
      | error e => exact ⟨rfl, rfl, rfl, hleft, hright⟩
    | render result container =>
      unfold answer after Session.call Session.render
      dsimp only
      cases results'[result]? with
      | none => exact ⟨rfl, rfl, rfl, rfl, hc, hc'⟩
      | some result =>
        obtain ⟨_, _, _, hrender⟩ := Renderer.render_cache rendered' d' result container
        refine ⟨by rw [Option.map_some, Option.map_some, hrender, hrender], ?_⟩
        dsimp only
        rw [hrender, hrender]
        exact ⟨rfl, rfl, rfl, hc, hc'⟩
    | discard container => exact ⟨rfl, rfl, rfl, rfl, hc, hc'⟩
    | retainLive => exact ⟨rfl, rfl, rfl, rfl, hc, hc'⟩
  | isRendered container => exact ⟨rfl, rfl, rfl, rfl, hc, hc'⟩
  | edit op => exact ⟨rfl, rfl, rfl, rfl, hc, hc'⟩

/-- **So are any events**, one after the other. -/
theorem Alike.trace {events : List Event} (hevents : ∀ e ∈ events, ∀ site ∈ e.site?, site ∈ sites) :
    s.trace events = s'.trace events := by
  induction events generalizing s s' with
  | nil => rfl
  | cons e events ih =>
    obtain ⟨hanswer, hafter⟩ := h.step hsites (hevents e List.mem_cons_self)
    rw [Session.trace, Session.trace, hanswer, hafter.doc,
      ih hafter fun e' he' => hevents e' (List.mem_cons_of_mem e he')]

end

/-- **Eviction is invisible.** Two renderers with any capacities are at work on the same document,
with the same events in any order; call sites are told apart by their identities. Then after each
event the documents are the same, and all events get the same answers. -/
theorem eviction_is_invisible (d : Document) (capacity capacity' : Capacity) {events : List Event}
    (hsites : ∀ a ∈ events.filterMap Event.site?, ∀ b ∈ events.filterMap Event.site?,
      a.id = b.id → a = b) :
    (start d capacity).trace events = (start d capacity').trace events := by
  refine (alike_start _ d capacity capacity').trace hsites fun e he site hsite => ?_
  exact List.mem_filterMap.2 ⟨e, he, hsite⟩

/-- A second call site evicts the first one, or does not; its result is rendered all the same. -/
theorem eviction_is_invisible_bold :
    let d : Document :=
      { forest := .cons ⟨0, .element { tag := "p" }⟩ (.cons ⟨1, .text "old"⟩ .nil .nil) .nil,
        next := 2 }
    let capacity : Capacity := some ⟨1, Nat.one_pos⟩
    let b : CallSite := ⟨0, ["<b>", "</b>"]⟩
    let i : CallSite := ⟨1, ["<i>", "</i>"]⟩
    let html : List Call := [.html b [.string "x"], .html i [.string "y"]]
    let events : List Event := html.map .call ++
      [.call (.render 0 0), .isRendered 0, .edit (.remove 0), .call .retainLive]
    (∀ x ∈ events.filterMap Event.site?, ∀ y ∈ events.filterMap Event.site?, x.id = y.id → x = y) ∧
      ((start d capacity).run html).renderer.cache.contains b = false ∧
      ((start d none).run html).renderer.cache.contains b = true ∧
      (start d capacity).trace events = (start d none).trace events := by
  intro d capacity b i html events
  let f (tag : String) : Forest Content :=
    .cons (.element { tag }) (.cons (.comment "stamp-marker:0") .nil .nil) .nil
  have hb : ∃ t, (CallSite.mk 0 ["<b>", "</b>"]).compile = .ok t := by
    have hf : (f "b").Printable := ⟨by decide +kernel, by decide⟩
    refine ⟨_, CallSite.compile_eq_ok_iff.2 ⟨f "b", ?_, by decide +kernel, rfl⟩⟩
    rw [show String.ofList _ = (f "b").toMarkup by decide +kernel, Markup.parse_toMarkup hf]
  have hi : ∃ t, (CallSite.mk 1 ["<i>", "</i>"]).compile = .ok t := by
    have hf : (f "i").Printable := ⟨by decide +kernel, by decide⟩
    refine ⟨_, CallSite.compile_eq_ok_iff.2 ⟨f "i", ?_, by decide +kernel, rfl⟩⟩
    rw [show String.ofList _ = (f "i").toMarkup by decide +kernel, Markup.parse_toMarkup hf]
  obtain ⟨t, hb⟩ := hb
  obtain ⟨t', hi⟩ := hi
  have hsites : ∀ x ∈ events.filterMap Event.site?, ∀ y ∈ events.filterMap Event.site?,
      x.id = y.id → x = y := by decide
  have hlimit : ∀ entries,
      TemplateCache.limit capacity entries = entries.drop (entries.length - 1) := fun _ => rfl
  have hall : ∀ entries, TemplateCache.limit none entries = entries := fun _ => rfl
  refine ⟨hsites, ?_, ?_, eviction_is_invisible d capacity none hsites⟩
  all_goals
    simp [html, b, i, run, Session.call, start, Renderer.html, TemplateCache.getOrCompile,
      TemplateCache.peek?, TemplateCache.touch, TemplateCache.contains, Entries.lookup?,
      Entries.insert, hlimit, hall, hb, hi]

end Session

end MarkupTemplate
