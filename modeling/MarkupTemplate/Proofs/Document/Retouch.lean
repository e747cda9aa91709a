import MarkupTemplate.Proofs.Document.Replacement

/-!
# Changing nodes one by one

A walk over the nodes of a document may change each node that it meets: it writes to the node, or
puts a new node in its place. Handles are not kept then, so what the walk has done so far is said by
a function that takes each node of the old document to the one that now stands there
(`Document.Retouched`). The nodes still to be visited are what they were, under the same handles and
at the same addresses.

Results:
* `WellFormed.replaceChild_create`: a new node takes the place of a node without children.
* `Retouched.addressOf?_left`: a node still to be visited has the address that it had.
* `Retouched.visit`: what is said of a walk, one node further.
* `Retouched.shape?_root`: what a walk through all nodes leaves.
-/

namespace MarkupTemplate

/-! ## Nodes in place of nodes -/

namespace Forest

section

variable {σ : Node → Node} {h : Handle}

/-- A tree is found where it was if no other node got its handle. -/
theorem find?_map {f : Forest Node} (hσ : ∀ m ∈ f.labels, (σ m).handle = h ↔ m.handle = h) :
    (f.map σ).find? h = (f.find? h).map (Tree.map σ) := by
  induction f with
  | nil => rfl
  | cons a below beside ih₁ ih₂ =>
    obtain ⟨ha, hrest⟩ := List.forall_mem_cons.1 hσ
    obtain ⟨hbelow, hbeside⟩ := List.forall_mem_append.1 hrest
    rw [map, find?, find?, ih₁ hbelow, ih₂ hbeside]
    by_cases hah : a.handle = h
    · rw [if_pos (ha.2 hah), if_pos hah]
      rfl
    · rw [if_neg (mt ha.1 hah), if_neg hah, Option.map_or]

/-- It stands where it stood. -/
theorem places?_map {f : Forest Node} (hσ : ∀ m ∈ f.labels, (σ m).handle = h ↔ m.handle = h)
    (skipped : Nat) : (f.map σ).places? h skipped = f.places? h skipped := by
  induction f generalizing skipped with
  | nil => rfl
  | cons a below beside ih₁ ih₂ =>
    obtain ⟨ha, hrest⟩ := List.forall_mem_cons.1 hσ
    obtain ⟨hbelow, hbeside⟩ := List.forall_mem_append.1 hrest
    rw [map, places?, places?, ih₁ hbelow, ih₂ hbeside]
    simp only [ha]

end

/-- **A node without children makes place** for another one. -/
theorem splice_leaf {f : Forest Node} (hf : f.handles.Nodup) {h : Handle} {a : Node}
    (ht : f.find? h = some ⟨a, nil⟩) (n : Node) :
    f.splice h (cons n nil nil) = f.map fun m => if m.handle = h then n else m := by
  have hleft : ∀ g : Forest Node, h ∉ g.handles →
      g.map (fun m => if m.handle = h then n else m) = g := fun g hg =>
    map_eq_self fun m hm => if_neg fun e : m.handle = h =>
      hg (e ▸ List.mem_map_of_mem hm)
  induction f with
  | nil => cases ht
  | cons b below beside ih₁ ih₂ =>
    obtain ⟨hb, hb', hbelow, hbeside, hdisjoint⟩ := nodup_handles_cons.1 hf
    by_cases hbh : b.handle = h
    · subst hbh
      rw [find?, if_pos rfl] at ht
      obtain ⟨rfl, rfl⟩ := Tree.mk.inj (Option.some.inj ht)
      rw [splice, if_pos rfl, map, if_pos rfl, map, hleft beside hb', splice_of_not_mem _ hb']
      rfl
    · rw [find?_cons_of_ne hbh] at ht
      rw [splice, if_neg hbh, map, if_neg hbh]
      cases hfind : below.find? h with
      | some t =>
        rw [hfind, Option.some_or] at ht
        have hno : h ∉ beside.handles := hdisjoint h (mem_handles_of_find? hfind)
        rw [ih₁ hbelow (hfind.trans ht), hleft beside hno, splice_of_not_mem _ hno]
      | none =>
        rw [hfind, Option.none_or] at ht
        have hno : h ∉ below.handles := find?_eq_none_iff.1 hfind
        rw [ih₂ hbeside ht, hleft below hno, splice_of_not_mem _ hno]

end Forest

namespace Document

/-- **A new node takes the place** of a node without children. -/
theorem WellFormed.replaceChild_create {d : Document} (hd : d.WellFormed) {h : Handle} {a : Node}
    (ht : d.tree? h = some ⟨a, .nil⟩) (c : Content) :
    ∃ d', (d.create c).1.replaceChild h (d.create c).2 = (d', .ok ()) ∧ d'.WellFormed ∧
      d'.forest = d.forest.map fun m => if m.handle = h then ⟨d.next, c⟩ else m := by
  have he : d.Extends (d.create c).1 (.cons ⟨d.next, c⟩ .nil .nil) := by
    have := hd.extends_self.plant ⟨c, .nil⟩
    rwa [Forest.nil_append] at this
  have hlt : h < d.next := hd.fresh h (Forest.mem_handles_of_find? ht)
  have hnew : (d.create c).1.tree? d.next = some ⟨⟨d.next, c⟩, .nil⟩ := he.tree?_made (k := 0) rfl
  have hold : (d.create c).1.tree? h = some ⟨a, .nil⟩ := (he.tree?_old hlt).trans ht
  have hfree : ¬Relation.ReflTransGen (d.create c).1.IsParent d.next h := by
    rw [← he.wellFormed.mem_handles_iff_reflTransGen hnew]
    simp [Tree.handles_mk, Nat.ne_of_lt hlt]
  have hreplaced := he.wellFormed.replaceChild_of_not_ancestor (Option.isSome_of_mem hold)
    (Option.isSome_of_mem hnew) hnew hfree
  have hwf := he.wellFormed.replaceChild h d.next
  rw [hreplaced] at hwf
  refine ⟨_, hreplaced, hwf, ?_⟩
  have hleft : d.next ∉ d.forest.handles := fun hm => Nat.lt_irrefl _ (hd.fresh _ hm)
  have hpruned : (d.create c).1.forest.splice d.next .nil = d.forest := by
    rw [he.forest, Forest.splice_append, Forest.splice_of_not_mem _ hleft, Forest.splice,
      if_pos rfl, Forest.splice, Forest.append_nil, Forest.append_nil]
  show ((d.create c).1.forest.splice d.next .nil).splice h _ = _
  rw [hpruned]
  exact Forest.splice_leaf hd.nodup ht _

/-! ## What has become of the document -/

/-- The nodes of `d'` stand where those of `d` stood, and the content of the visited ones is changed
by `φ`. The node `n` of `d` has become `σ n`, which need not be the same node. -/
structure Retouched (φ : Content → Content) (d d' : Document) (root : Handle)
    (visited : List Handle) (σ : Node → Node) : Prop where
  /-- The document is well-formed. -/
  wellFormed : d'.WellFormed
  /-- The nodes stand where they stood. -/
  forest : d'.forest = d.forest.map σ
  /-- The content of those that were visited is changed. -/
  done : ∀ n ∈ d.forest.labels, n.handle ∈ visited → (σ n).content = φ n.content
  /-- The others, and the root, are what they were. -/
  same : ∀ n ∈ d.forest.labels, n.handle = root ∨ n.handle ∉ visited → σ n = n

theorem WellFormed.retouched_self {d : Document} (hd : d.WellFormed) (φ : Content → Content)
    (root : Handle) : Retouched φ d d root [] id where
  wellFormed := hd
  forest := (Forest.map_eq_self fun _ _ => rfl).symm
  done := fun _ _ h => absurd h List.not_mem_nil
  same := fun _ _ _ => rfl

section

variable {φ : Content → Content} {d d' : Document} (hd : d.WellFormed) {root : Handle}
  {visited : List Handle} {σ : Node → Node} (h : Retouched φ d d' root visited σ)

include hd h

/-- No node has got the handle of one that is what it was. -/
theorem Retouched.handle_eq_iff {n : Node} (hn : n ∈ d.forest.labels) (hσ : σ n = n) :
    ∀ m ∈ d.forest.labels, (σ m).handle = n.handle ↔ m.handle = n.handle := by
  have hnodup : (d.forest.labels.map fun m => (σ m).handle).Nodup := by
    have := h.wellFormed.nodup
    rwa [h.forest, Forest.handles, Forest.labels_map, List.map_map] at this
  intro m hm
  constructor
  · intro he
    rw [← hσ] at he
    rw [List.inj_on_of_nodup_map hnodup hm hn he]
  · intro he
    rw [List.inj_on_of_nodup_map hd.nodup hm hn he, hσ]

theorem Retouched.tree?_left {n : Node} (hn : n ∈ d.forest.labels) (hσ : σ n = n) :
    d'.tree? n.handle = (d.tree? n.handle).map (Tree.map σ) := by
  rw [tree?, h.forest, Forest.find?_map (h.handle_eq_iff hd hn hσ)]
  rfl

omit hd in
theorem Retouched.content?_left {n : Node} (hn : n ∈ d.forest.labels) (hσ : σ n = n) :
    d'.content? n.handle = some n.content := by
  rw [h.wellFormed.content?_eq_some_iff, h.forest, Forest.labels_map]
  exact List.mem_map.2 ⟨n, hn, hσ⟩

/-- It has the address that it had. -/
theorem Retouched.addressOf?_left {r n : Node} (hr : r ∈ d.forest.labels) (hroot : r.handle = root)
    (hn : n ∈ d.forest.labels) (hσ : σ n = n) :
    d'.addressOf? root n.handle = d.addressOf? root n.handle := by
  by_cases hne : n.handle = root
  · rw [addressOf?, addressOf?, if_pos hne, if_pos hne]
  · have htree := h.tree?_left hd hr (h.same r hr (.inl hroot))
    rw [hroot] at htree
    rw [addressOf?_of_ne hne, addressOf?_of_ne hne, htree]
    cases ht : d.tree? root with
    | none => rfl
    | some t =>
      have hbelow : ∀ m ∈ t.children.labels, (σ m).handle = n.handle ↔ m.handle = n.handle :=
        fun m hm => h.handle_eq_iff hd hn hσ m
          ((Forest.labels_sublist_of_find? ht).subset (List.mem_cons_of_mem _ hm))
      rw [Option.map_some, Option.bind_some, Option.bind_some, Tree.map,
        Forest.places?_map hbelow]

/-- **A node is visited** when another node takes its place, or when it is written to. -/
theorem Retouched.visit {n : Node} (hn : n ∈ d.forest.labels) (hleft : n.handle ∉ visited)
    {d'' : Document} (hd'' : d''.WellFormed) {τ : Node → Node}
    (hforest : d''.forest = d'.forest.map τ)
    (hothers : ∀ m ∈ d'.forest.labels, m.handle ≠ n.handle → τ m = m)
    (hroot : n.handle = root → τ n = n) (hself : (τ n).content = φ n.content) :
    Retouched φ d d'' root (visited ++ [n.handle]) (τ ∘ σ) := by
  have hσ : σ n = n := h.same n hn (.inr hleft)
  have hothers : ∀ m ∈ d.forest.labels, m.handle ≠ n.handle → τ (σ m) = σ m := by
    intro m hm hmn
    refine hothers (σ m) ?_ fun he => hmn ((h.handle_eq_iff hd hn hσ m hm).1 he)
    rw [h.forest, Forest.labels_map]
    exact List.mem_map_of_mem hm
  constructor
  · exact hd''
  · rw [hforest, h.forest, Forest.map_map]
  · intro m hm hv
    rw [Function.comp_apply]
    by_cases hmn : m.handle = n.handle
    · obtain rfl := List.inj_on_of_nodup_map hd.nodup hm hn hmn
      rw [hσ, hself]
    · rw [hothers m hm hmn]
      refine h.done m hm ((List.mem_append.1 hv).resolve_right fun he => ?_)
      exact hmn (List.mem_singleton.1 he)
  · intro m hm hm'
    rw [Function.comp_apply]
    by_cases hmn : m.handle = n.handle
    · obtain rfl := List.inj_on_of_nodup_map hd.nodup hm hn hmn
      have hmroot := hm'.resolve_right fun hv => hv (List.mem_append_right _ List.mem_cons_self)
      rw [hσ, hroot hmroot]
    · rw [hothers m hm hmn]
      exact h.same m hm (hm'.imp_right fun hv hm => hv (List.mem_append_left _ hm))

/-- A node whose content is to stay may stay as it is. -/
theorem Retouched.skip {n : Node} (hn : n ∈ d.forest.labels) (hleft : n.handle ∉ visited)
    (hsame : φ n.content = n.content) :
    Retouched φ d d' root (visited ++ [n.handle]) σ :=
  h.visit hd hn hleft h.wellFormed (τ := id) (Forest.map_eq_self fun _ _ => rfl).symm
    (fun _ _ _ => rfl) (fun _ => rfl) hsame.symm

/-- **After all nodes below the root were visited**, the tree under the root is changed by `φ`. -/
theorem Retouched.shape?_root {t : Tree Node} (ht : d.tree? root = some t)
    (hvisited : ∀ n ∈ t.children.labels, n.handle ∈ visited) :
    d'.shape? root = some ⟨t.label.content, t.children.contents.map φ⟩ := by
  have hlabels : ∀ n ∈ t.labels, n ∈ d.forest.labels := fun n hn =>
    (Forest.labels_sublist_of_find? ht).subset hn
  have hroot : t.label.handle = root := Forest.handle_of_find? ht
  have hself := hlabels t.label List.mem_cons_self
  have hσ := h.same t.label hself (.inl hroot)
  have hleft := h.tree?_left hd hself hσ
  have hbelow : (t.children.map σ).map Node.content = t.children.contents.map φ := by
    rw [Forest.contents, Forest.map_map, Forest.map_map]
    refine Forest.map_congr fun n hn => ?_
    exact h.done n (hlabels n (List.mem_cons_of_mem _ hn)) (hvisited n hn)
  rw [hroot, ht] at hleft
  rw [shape?, hleft, Option.map_some, Option.map_some, Tree.map, Tree.map, hbelow, hσ]

end

end Document

end MarkupTemplate
