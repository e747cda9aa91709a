import MarkupTemplate.Renderer

/-!
# What a cache is asked

A request for a template has three outcomes: the template is there, or it is compiled and kept, or
the call site cannot be compiled. A renderer that is asked for a result asks its cache for the
template, if there is a value for each gap. What else is proved of caches starts from this.

Results:
* `getOrCompile_cases`: what comes of asking for a template.
* `forall_getOrCompile`: what holds of all kept templates goes on holding, and holds of the one that
  is given.
* `html_of_length`, `html_of_length_ne`: what comes of asking for a result.
-/

namespace MarkupTemplate

namespace TemplateCache

/-- What comes of asking for the template of a call site: it is there, or it is compiled and kept,
or it cannot be compiled. -/
theorem getOrCompile_cases (c : TemplateCache) (site : CallSite) :
    (∃ t, c.peek? site = some t ∧ c.getOrCompile site = (c.touch site t, .ok t)) ∨
      (∃ template, c.peek? site = none ∧ site.compile = .ok template ∧
        c.getOrCompile site =
          ({ c.touch site ⟨c.compilations, template⟩ with compilations := c.compilations + 1 },
            .ok ⟨c.compilations, template⟩)) ∨
      ∃ cause, c.peek? site = none ∧ site.compile = .error cause ∧
        c.getOrCompile site = (c, .error ⟨site.id, cause⟩) := by
  unfold getOrCompile
  cases hpeek : c.peek? site with
  | some t => exact .inl ⟨t, rfl, rfl⟩
  | none =>
    cases hcompile : site.compile with
    | ok template => exact .inr (.inl ⟨template, rfl, rfl, rfl⟩)
    | error cause => exact .inr (.inr ⟨cause, rfl, rfl, rfl⟩)

theorem mem_of_peek?_eq_some {c : TemplateCache} {site : CallSite} {t : Cached}
    (ht : c.peek? site = some t) : (site.id, t) ∈ c.entries := by
  obtain ⟨e, he, rfl⟩ := Option.map_eq_some_iff.1 ht
  have hkey : e.1 = site.id := by simpa using List.find?_some he
  rw [← hkey]
  exact List.mem_of_find?_eq_some he

theorem mem_of_mem_touch {c : TemplateCache} {site : CallSite} {t : Cached} {e : Nat × Cached}
    (he : e ∈ (c.touch site t).entries) : e ∈ c.entries ∧ e.1 ≠ site.id ∨ e = (site.id, t) := by
  refine Entries.mem_insert.1 ?_
  unfold touch limit at he
  split at he
  · exact he
  · exact List.mem_of_mem_drop he

/-- **What holds of all kept templates** and of a newly compiled one goes on holding of all, and
holds of the template that is given. -/
theorem forall_getOrCompile {P : Nat → Template → Prop} {c : TemplateCache}
    (hc : ∀ e ∈ c.entries, P e.1 e.2.template) {site : CallSite}
    (hmade : ∀ t, site.compile = .ok t → P site.id t) :
    (∀ e ∈ (c.getOrCompile site).1.entries, P e.1 e.2.template) ∧
      ∀ t, (c.getOrCompile site).2 = .ok t → P site.id t.template := by
  have htouch : ∀ t : Cached, P site.id t.template →
      ∀ e ∈ (c.touch site t).entries, P e.1 e.2.template := by
    intro t ht e he
    rcases mem_of_mem_touch he with ⟨he, -⟩ | rfl
    · exact hc e he
    · exact ht
  rcases c.getOrCompile_cases site with ⟨t, hpeek, h⟩ | ⟨t, -, hcompile, h⟩ | ⟨e, -, -, h⟩
  · have ht : P site.id t.template := hc _ (mem_of_peek?_eq_some hpeek)
    rw [h]
    exact ⟨htouch t ht, fun t' h' => Except.ok.inj h' ▸ ht⟩
  · have ht : P site.id t := hmade t hcompile
    rw [h]
    exact ⟨htouch ⟨c.compilations, t⟩ ht, fun t' h' => Except.ok.inj h' ▸ ht⟩
  · rw [h]
    exact ⟨hc, fun t' h' => by cases h'⟩

end TemplateCache

namespace Renderer

/-- With a value for each gap, a renderer asks its cache. -/
theorem html_of_length (r : Renderer) {site : CallSite} {values : List Value}
    (h : site.fragments.length = values.length + 1) :
    r.html site values = ({ r with cache := (r.cache.getOrCompile site).1 },
      match (r.cache.getOrCompile site).2 with
      | .ok t => .ok { template := t.template, values := .array values }
      | .error e => .error (.compile e)) :=
  if_neg (Decidable.not_not.2 h)

/-- Otherwise it asks for nothing. -/
theorem html_of_length_ne (r : Renderer) {site : CallSite} {values : List Value}
    (h : site.fragments.length ≠ values.length + 1) :
    r.html site values = (r, .error (.arity site.id site.fragments.length values.length)) :=
  if_pos h

end Renderer

end MarkupTemplate
