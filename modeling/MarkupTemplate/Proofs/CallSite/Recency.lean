import MarkupTemplate.Proofs.CallSite.Cache
import Mathlib.Data.List.Dedup
import Mathlib.Data.List.DropRight

/-!
# The call sites asked for last

A cache is asked for templates, directly or for results, and it is asked what is there. A template
that it serves, from the cache or newly compiled, is the last one from then on; everything else
leaves it as it is. So at any time the cache holds the templates of the call sites that were served
last, as many as it has room for, and it serves a template again for as long as there is room.

The history of a cache is the list of all templates that it has served so far, each with its call
site. What holds of a cache and its history is `Keeps`; a request that is served adds itself to the
history and keeps it (`Keeps.step`), and so do all requests (`Keeps.run`).

Results:
* `latest_concat`: which sites were named last can be told from those that were named last before.
* `mem_latest_iff`: a site is among them until too many others have been named.
* `least_recent_is_evicted`: the cache holds the sites that were served last, in this order, and
  serves the same template again exactly as long as its site is among them.
-/

namespace MarkupTemplate

/-! ## What was named last -/

/-- The last ones, as many as the capacity allows. -/
def newest {α : Type} (capacity : Capacity) (l : List α) : List α :=
  match capacity with
  | none => l
  | some n => l.rtake n.1

/-- The sites that were named last, the one that was named longest ago first, as many as the
capacity allows. -/
def latest (capacity : Capacity) (sites : List Nat) : List Nat :=
  newest capacity sites.dedup

/-- A site that is named again moves to the end. -/
theorem dedup_concat (sites : List Nat) (k : Nat) :
    (sites ++ [k]).dedup = sites.dedup.filter (· ≠ k) ++ [k] := by
  induction sites with
  | nil => rfl
  | cons x sites ih =>
    by_cases hx : x ∈ sites
    · rw [List.cons_append, List.dedup_cons_of_mem (List.mem_append_left _ hx), ih,
        List.dedup_cons_of_mem hx]
    · rw [List.dedup_cons_of_notMem hx, List.cons_append]
      by_cases hk : x = k
      · rw [List.dedup_cons_of_mem (by simp [hk]), ih, List.filter_cons, if_neg (by simp [hk])]
      · rw [List.dedup_cons_of_notMem (by simp [hx, hk]), ih, List.filter_cons,
          if_pos (by simp [hk]), List.cons_append]

theorem rtake_append {α : Type} {n : Nat} (l : List α) {r : List α} (h : n ≤ r.length) :
    (l ++ r).rtake n = r.rtake n := by
  have hlength : (l ++ r).length - n = l.length + (r.length - n) := by
    rw [List.length_append]
    omega
  rw [List.rtake, hlength, List.drop_append, List.drop_eq_nil_of_le (Nat.le_add_right _ _),
    Nat.add_sub_cancel_left]
  rfl

/-- Where one more is kept than is asked for, leaving one out is no loss. -/
theorem rtake_filter {l : List Nat} (hl : l.Nodup) (n k : Nat) :
    ((l.rtake (n + 1)).filter (· ≠ k)).rtake n = (l.filter (· ≠ k)).rtake n := by
  by_cases hroom : l.length ≤ n + 1
  · have hall : l.rtake (n + 1) = l := by
      rw [List.rtake, Nat.sub_eq_zero_of_le hroom, List.drop_zero]
    rw [hall]
  · have hsplit : l = l.take (l.length - (n + 1)) ++ l.rtake (n + 1) :=
      (List.take_append_drop _ l).symm
    have hkept : (l.rtake (n + 1)).length = n + 1 := by
      rw [List.rtake, List.length_drop]
      omega
    have hnodup : (l.rtake (n + 1)).Nodup := hl.sublist (List.drop_sublist _ l)
    have hleft : n ≤ ((l.rtake (n + 1)).filter (· ≠ k)).length := by
      have herase : (l.rtake (n + 1)).erase k = (l.rtake (n + 1)).filter (· ≠ k) := by
        rw [hnodup.erase_eq_filter]
        refine List.filter_congr fun x _ => ?_
        by_cases hx : x = k <;> simp [hx]
      rw [← herase, List.length_erase]
      split <;> omega
    conv_rhs => rw [hsplit, List.filter_append, rtake_append _ hleft]

/-- **What is named last can be told from what was named last before.** -/
theorem latest_concat (capacity : Capacity) (sites : List Nat) (k : Nat) :
    latest capacity (sites ++ [k]) =
      newest capacity ((latest capacity sites).filter (· ≠ k) ++ [k]) := by
  unfold latest
  rw [dedup_concat]
  cases capacity with
  | none => rfl
  | some n =>
    obtain ⟨n, hn⟩ := n
    obtain ⟨m, rfl⟩ := Nat.exists_eq_add_one_of_ne_zero (Nat.ne_of_gt hn)
    simp only [newest]
    rw [List.rtake_concat_succ, List.rtake_concat_succ, rtake_filter (List.nodup_dedup sites)]

/-- **A site is among the last** until too many others have been named. -/
theorem mem_latest_iff {capacity : Capacity} {before between : List Nat} {k : Nat}
    (hk : k ∉ between) :
    k ∈ latest capacity (before ++ k :: between) ↔
      ∀ n ∈ capacity, between.dedup.length < n.1 := by
  obtain ⟨front, hfront⟩ : ∃ front, front ++ k :: between.dedup =
      (before ++ k :: between).dedup := by
    rw [List.dedup_append, List.dedup_cons_of_notMem hk]
    exact List.suffix_union_right _ _
  unfold latest
  rw [← hfront]
  cases capacity with
  | none => simp [newest]
  | some n =>
    have hall : (∀ m ∈ some n, between.dedup.length < m.1) ↔ between.dedup.length < n.1 := by
      simp
    rw [hall]
    simp only [newest]
    constructor
    · intro hmem
      by_contra hfull
      have hall : n.1 ≤ between.dedup.length := Nat.not_lt.1 hfull
      rw [List.append_cons, rtake_append _ hall] at hmem
      exact hk (List.mem_dedup.1 (List.mem_of_mem_drop hmem))
    · intro hroom
      -- what is kept ends with the site and what was named after it
      rw [List.rtake, List.length_append, List.length_cons,
        List.drop_append_of_le_length (by omega)]
      exact List.mem_append_right _ List.mem_cons_self

namespace TemplateCache

/-! ## One template -/

theorem keys_limit (capacity : Capacity) (entries : List (Nat × Cached)) :
    Entries.keys (limit capacity entries) = newest capacity (Entries.keys entries) := by
  cases capacity with
  | none => rfl
  | some n => simp [limit, newest, Entries.keys, List.rtake, List.map_drop]

theorem keys_touch (c : TemplateCache) (site : CallSite) (t : Cached) :
    Entries.keys (c.touch site t).entries =
      newest c.capacity ((Entries.keys c.entries).filter (· ≠ site.id) ++ [site.id]) := by
  rw [touch, keys_limit, Entries.keys_insert]

/-! ## Requests -/

/-- What a cache is asked, directly or by a renderer that it is the cache of. -/
inductive Request where
  /-- For the template of a call site. -/
  | getOrCompile (site : CallSite)
  /-- For the result of a call site for values. -/
  | html (site : CallSite) (values : List Value)
  /-- Whether the template of a call site is there. -/
  | contains (site : CallSite)

/-- The call site that a request names. -/
def Request.site : Request → CallSite
  | getOrCompile site | html site _ | contains site => site

/-- The template that is served for a request. None is served where the call site has none, where
the number of values does not fit, and where it is only asked whether a template is there. -/
def served? (c : TemplateCache) : Request → Option Cached
  | .getOrCompile site => (c.getOrCompile site).2.toOption
  | .html site values =>
    if site.fragments.length = values.length + 1 then (c.getOrCompile site).2.toOption else none
  | .contains _ => none

/-- The cache after a request. -/
def after (c : TemplateCache) : Request → TemplateCache
  | .getOrCompile site => (c.getOrCompile site).1
  | .html site values => (Renderer.html { cache := c } site values).1.cache
  | .contains _ => c

/-- The cache after requests, one after the other. -/
def run (c : TemplateCache) (requests : List Request) : TemplateCache :=
  requests.foldl after c

/-- The templates that are served for requests, with their call sites, in order. -/
def history (c : TemplateCache) : List Request → List (Nat × Cached)
  | [] => []
  | request :: requests =>
    ((c.served? request).map (request.site.id, ·)).toList ++ (c.after request).history requests

/-- What a renderer gives for values has the template that its cache serves. -/
theorem html_served {r : Renderer} {c : TemplateCache} (hr : r.cache = c) (site : CallSite)
    (values : List Value) :
    (r.html site values).2.toOption.map TemplateResult.template =
        (c.served? (.html site values)).map Cached.template ∧
      (r.html site values).1.cache = c.after (.html site values) := by
  subst hr
  by_cases hlength : site.fragments.length = values.length + 1
  · rw [after, Renderer.html_of_length _ hlength, Renderer.html_of_length _ hlength, served?,
      if_pos hlength]
    refine ⟨?_, rfl⟩
    cases (r.cache.getOrCompile site).2 <;> rfl
  · rw [after, Renderer.html_of_length_ne _ hlength, Renderer.html_of_length_ne _ hlength, served?,
      if_neg hlength]
    exact ⟨rfl, rfl⟩

/-- A request that is served is one for the template of its call site. -/
theorem of_served?_eq_some {c : TemplateCache} {request : Request} {t : Cached}
    (h : c.served? request = some t) :
    c.getOrCompile request.site = (c.after request, .ok t) := by
  have hok : ∀ site : CallSite, (c.getOrCompile site).2.toOption = some t →
      c.getOrCompile site = ((c.getOrCompile site).1, .ok t) := by
    intro site h
    refine Prod.ext rfl ?_
    cases hr : (c.getOrCompile site).2 with
    | error e => rw [hr] at h; cases h
    | ok t' => rw [hr] at h; exact congrArg _ (Option.some.inj h)
  cases request with
  | getOrCompile site => exact hok site h
  | html site values =>
    by_cases hlength : site.fragments.length = values.length + 1
    · rw [served?, if_pos hlength] at h
      rw [after, Renderer.html_of_length _ hlength]
      exact hok site h
    · rw [served?, if_neg hlength] at h
      cases h
  | contains site => cases h

/-- A request that is not served leaves the cache as it is. -/
theorem after_of_served?_eq_none {c : TemplateCache} {request : Request}
    (h : c.served? request = none) : c.after request = c := by
  have herror : ∀ site : CallSite, (c.getOrCompile site).2.toOption = none →
      (c.getOrCompile site).1 = c := by
    intro site h
    rcases c.getOrCompile_cases site with ⟨t, -, heq⟩ | ⟨t, -, -, heq⟩ | ⟨e, -, -, heq⟩
    · rw [heq] at h; cases h
    · rw [heq] at h; cases h
    · rw [heq]
  cases request with
  | getOrCompile site => exact herror site h
  | html site values =>
    by_cases hlength : site.fragments.length = values.length + 1
    · rw [served?, if_pos hlength] at h
      rw [after, Renderer.html_of_length _ hlength]
      exact herror site h
    · rw [after, Renderer.html_of_length_ne _ hlength]
  | contains site => rfl

/-! ## A cache and its history -/

/-- What holds of a cache that has served the templates of `history`, in this order. -/
structure Keeps (capacity : Capacity) (c : TemplateCache) (history : List (Nat × Cached)) :
    Prop where
  /-- The capacity stays. -/
  capacity_eq : c.capacity = capacity
  /-- The cache holds the sites that were served last, in this order. -/
  keys : Entries.keys c.entries = latest capacity (history.map Prod.fst)
  /-- For each it holds the template that was served last. -/
  last : ∀ e ∈ c.entries, history.reverse.find? (·.1 = e.1) = some e
  /-- No template is made again. -/
  serials : ∀ e ∈ history, e.2.serial < c.compilations

theorem keeps_start (capacity : Capacity) : Keeps capacity { capacity } [] where
  capacity_eq := rfl
  keys := by
    cases capacity with
    | none => rfl
    | some n => exact (List.rtake_nil n.1).symm
  last := fun _ he => absurd he List.not_mem_nil
  serials := fun _ he => absurd he List.not_mem_nil

section

variable {capacity : Capacity} {c : TemplateCache} {history : List (Nat × Cached)}
  (h : Keeps capacity c history)

include h

/-- A template that is served becomes the last one. -/
theorem Keeps.touch (site : CallSite) (t : Cached) {compilations : Nat}
    (hserials : ∀ e ∈ history ++ [(site.id, t)], e.2.serial < compilations) :
    Keeps capacity { c.touch site t with compilations } (history ++ [(site.id, t)]) where
  capacity_eq := h.capacity_eq
  keys := by
    rw [List.map_append, List.map_singleton, latest_concat, ← h.keys, ← h.capacity_eq]
    exact c.keys_touch site t
  last := by
    intro e he
    rw [List.reverse_append, List.reverse_singleton, List.singleton_append]
    rcases mem_of_mem_touch he with ⟨he, hne⟩ | rfl
    · rw [List.find?_cons_of_neg (by simpa using hne.symm), h.last e he]
    · exact List.find?_cons_of_pos (by simp)
  serials := hserials

/-- What is there was served last for its site. -/
theorem Keeps.find?_of_peek? {site : CallSite} {t : Cached} (ht : c.peek? site = some t) :
    history.reverse.find? (·.1 = site.id) = some (site.id, t) := by
  exact h.last _ (mem_of_peek?_eq_some ht)

theorem Keeps.peek?_isSome_iff (site : CallSite) :
    (c.peek? site).isSome = true ↔ site.id ∈ latest capacity (history.map Prod.fst) := by
  rw [← h.keys]
  simp [peek?, Entries.lookup?, Entries.keys]

/-- **A request adds to the history what it is served.** -/
theorem Keeps.step (request : Request) : Keeps capacity (c.after request)
    (history ++ ((c.served? request).map (request.site.id, ·)).toList) := by
  cases hserved : c.served? request with
  | none =>
    rw [after_of_served?_eq_none hserved, Option.map_none, Option.toList_none, List.append_nil]
    exact h
  | some t =>
    have heq := of_served?_eq_some hserved
    rw [Option.map_some, Option.toList_some]
    rcases c.getOrCompile_cases request.site with ⟨t', ht', h'⟩ | ⟨_, -, -, h'⟩ | ⟨e, -, -, h'⟩
    · obtain ⟨hafter, ht⟩ := Prod.mk.inj (heq.symm.trans h')
      obtain rfl := Except.ok.inj ht
      rw [hafter]
      refine h.touch request.site t fun e he => ?_
      rcases List.mem_append.1 he with he | he
      · exact h.serials e he
      · -- it was served before
        obtain rfl := List.mem_singleton.1 he
        have hmem := List.mem_of_find?_eq_some (h.find?_of_peek? ht')
        exact h.serials _ (List.mem_reverse.1 hmem)
    · obtain ⟨hafter, ht⟩ := Prod.mk.inj (heq.symm.trans h')
      obtain rfl := Except.ok.inj ht
      rw [hafter]
      refine h.touch request.site ⟨c.compilations, _⟩ fun e he => ?_
      rcases List.mem_append.1 he with he | he
      · exact Nat.lt_succ_of_lt (h.serials e he)
      · obtain rfl := List.mem_singleton.1 he
        exact Nat.lt_succ_self _
    · obtain ⟨-, ht⟩ := Prod.mk.inj (heq.symm.trans h')
      cases ht

/-- **So do any requests**, one after the other. -/
theorem Keeps.run (requests : List Request) :
    Keeps capacity (c.run requests) (history ++ c.history requests) := by
  induction requests generalizing c history with
  | nil =>
    rw [TemplateCache.history, List.append_nil]
    exact h
  | cons request requests ih =>
    have := ih (h.step request)
    rwa [List.append_assoc] at this

/-- **A template is served again** exactly if its site is still among the last. -/
theorem Keeps.served_again_iff {request : Request} {t t' : Cached}
    {before between : List (Nat × Cached)} (hserved : c.served? request = some t)
    (hhistory : history = before ++ (request.site.id, t') :: between)
    (hbetween : request.site.id ∉ between.map Prod.fst) :
    t = t' ↔ ∀ n ∈ capacity, (between.map Prod.fst).dedup.length < n.1 := by
  have hlast : history.reverse.find? (·.1 = request.site.id) = some (request.site.id, t') := by
    have hnone : between.reverse.find? (·.1 = request.site.id) = none := by
      rw [List.find?_eq_none]
      intro e he hkey
      exact hbetween (List.mem_map.2 ⟨e, List.mem_reverse.1 he, by simpa using hkey⟩)
    rw [hhistory, List.reverse_append, List.reverse_cons, List.append_assoc, List.find?_append,
      hnone, Option.none_or]
    exact List.find?_cons_of_pos (by simp)
  have hthere := h.peek?_isSome_iff request.site
  rw [hhistory, List.map_append, List.map_cons, mem_latest_iff hbetween] at hthere
  rw [← hthere]
  have heq := of_served?_eq_some hserved
  rcases c.getOrCompile_cases request.site with ⟨_, hpeek, h'⟩ | ⟨_, hpeek, -, h'⟩ | ⟨e, -, -, h'⟩
  · obtain rfl := Except.ok.inj (Prod.mk.inj (heq.symm.trans h')).2
    have hsame := (h.find?_of_peek? hpeek).symm.trans hlast
    rw [hpeek]
    exact iff_of_true (Prod.mk.inj (Option.some.inj hsame)).2 rfl
  · obtain rfl := Except.ok.inj (Prod.mk.inj (heq.symm.trans h')).2
    rw [hpeek]
    refine iff_of_false ?_ Bool.false_ne_true
    rintro rfl
    -- what was served before was made before
    have hmem := List.mem_reverse.1 (List.mem_of_find?_eq_some hlast)
    exact Nat.lt_irrefl _ (h.serials _ hmem)
  · cases (Prod.mk.inj (heq.symm.trans h')).2

end

/-- **The least recent is evicted.** After any requests, the cache holds the call sites that were
served last, each once, in the order in which they were, and as many as the capacity allows. A
template is served again, and not compiled anew, exactly if fewer other sites than the capacity have
been served since. A request that is not served changes nothing. -/
theorem least_recent_is_evicted (capacity : Capacity) (requests : List Request) :
    let c := run { capacity } requests
    let served := history { capacity } requests
    Entries.keys c.entries = latest capacity (served.map Prod.fst) ∧
      (∀ n ∈ capacity, c.size ≤ n.1) ∧
      (∀ site, c.contains site = true ↔ site.id ∈ latest capacity (served.map Prod.fst)) ∧
      (∀ request t, c.served? request = some t → ∀ before t' between,
        served = before ++ (request.site.id, t') :: between →
        request.site.id ∉ between.map Prod.fst →
        (t = t' ↔ ∀ n ∈ capacity, (between.map Prod.fst).dedup.length < n.1)) ∧
      (∀ request, c.served? request = none → c.after request = c) ∧
      ∀ r : Renderer, r.cache = c → ∀ site values,
        (r.html site values).2.toOption.map TemplateResult.template =
            (c.served? (.html site values)).map Cached.template ∧
          (r.html site values).1.cache = c.after (.html site values) := by
  intro c served
  have h : Keeps capacity c served := (keeps_start capacity).run requests
  refine ⟨h.keys, fun n hn => ?_, h.peek?_isSome_iff, ?_, fun _ => after_of_served?_eq_none,
    fun r hr => html_served hr⟩
  · obtain rfl := Option.mem_def.1 hn
    have hlength : c.size = (latest (some n) (served.map Prod.fst)).length := by
      rw [← h.keys, Entries.keys, List.length_map, size]
    rw [hlength, latest, newest, List.rtake, List.length_drop]
    omega
  · intro request t ht before t' between hbefore hbetween
    exact h.served_again_iff ht hbefore hbetween

/-- With room for one template, the second of two sites evicts the first, which is then compiled
anew. -/
theorem least_recent_is_evicted_pair :
    let capacity : Capacity := some ⟨1, Nat.one_pos⟩
    let start : TemplateCache := { capacity }
    let a : CallSite := ⟨0, [""]⟩
    let b : CallSite := ⟨1, [""]⟩
    let requests : List Request := [.getOrCompile a, .contains b, .html b [], .html a [.null]]
    let c := run start requests
    start.history requests = [(0, ⟨0, .empty⟩), (1, ⟨1, .empty⟩)] ∧
      Entries.keys c.entries = [1] ∧ c.size ≤ 1 ∧ c.contains a = false ∧
      c.served? (.getOrCompile a) = some ⟨2, .empty⟩ := by
  intro capacity start a b requests c
  have hcompile : ∀ id, (CallSite.mk id [""]).compile = .ok .empty := by
    intro id
    unfold CallSite.compile
    rw [show String.ofList (CallSite.mk id [""]).markup = "" from rfl, Markup.parse_nil]
    rfl
  have hlimit : ∀ entries, limit capacity entries = entries.drop (entries.length - 1) :=
    fun _ => rfl
  have hhistory : start.history requests = [(0, ⟨0, .empty⟩), (1, ⟨1, .empty⟩)] := by
    simp [start, requests, a, b, history, served?, after, getOrCompile, peek?, touch, hlimit,
      Entries.lookup?, Entries.insert, hcompile, Request.site, Except.toOption]
  obtain ⟨hkeys, hsize, hcontains, -⟩ :=
    least_recent_is_evicted capacity requests
  rw [hhistory] at hkeys hcontains
  refine ⟨hhistory, hkeys, hsize _ rfl, ?_, ?_⟩
  · rw [← Bool.not_eq_true, hcontains]
    decide
  · simp [c, run, start, requests, a, b, served?, after, Renderer.html, getOrCompile, peek?, touch,
      hlimit, Entries.lookup?, Entries.insert, hcompile, Except.toOption]

end TemplateCache

end MarkupTemplate
