import MarkupTemplate.Proofs.Document.Relocation

/-!
# Appending

A node that is appended becomes the last child of its new parent; of a fragment, the children do,
one after the other. They are the children that the fragment had at the start, and each of them is
taken away before it is looked at whether it may be moved. So a move that fails leaves a node
without a parent, after those that were moved and before those that were not.

What stands above the new parent is the same all the time, since none of the nodes that are moved
stands there. So which moves are possible is known before the first one.

Results:
* `reflTransGen_iff_of_parent?`: what stands above a node depends on the parents on the way up.
* `WellFormed.arranged_moveAllUnder`: nodes that do not stand above `p` become its last children.
* `WellFormed.arranged_moveAllUnder_of_ancestor`: the first that does is without a parent in the
  end.
* `append_moves_nodes`: all of this of whatever operations lead to.
-/

namespace MarkupTemplate

namespace Document

/-! ## Several moves -/

/-- If something holds of an item, it holds of a first one. -/
theorem exists_first_of_mem {P : Handle → Prop} {ks : List Handle} (h : ∃ k ∈ ks, P k) :
    ∃ before k after, ks = before ++ k :: after ∧ P k ∧ ∀ x ∈ before, ¬P x := by
  classical
  have hsome : (ks.find? fun x => decide (P x)).isSome = true := by
    simpa using h
  obtain ⟨k, hk⟩ := Option.isSome_iff_exists.1 hsome
  obtain ⟨hPk, before, after, hks, hbefore⟩ := List.find?_eq_some_iff_append.1 hk
  exact ⟨before, k, after, hks, of_decide_eq_true hPk, fun y hy => by simpa using hbefore y hy⟩

theorem filter_not_mem_cons (c : Handle) (cs ks : List Handle) :
    ks.filter (· ∉ c :: cs) = (ks.filter (· ≠ c)).filter (· ∉ cs) := by
  rw [List.filter_filter]
  refine List.filter_congr fun k _ => ?_
  by_cases hk : k = c <;> simp [hk]

/-- The children of `h` after those of `moved` became the last children of `p`. -/
def childrenAfter (d : Document) (p : Handle) (moved : List Handle) (h : Handle) : List Handle :=
  (d.children h).filter (· ∉ moved) ++ if h = p then moved else []

theorem childrenAfter_nil (d : Document) (p : Handle) : d.childrenAfter p [] = d.children := by
  funext h
  simp [childrenAfter]

theorem childrenAfter_singleton (d : Document) (p c : Handle) : d.childrenAfter p [c] =
    fun h => (d.children h).filter (· ≠ c) ++ if h = p then [c] else [] := by
  funext h
  simp [childrenAfter]

theorem SameNodes.trans {d e e' : Document} (h : d.SameNodes e) (h' : e.SameNodes e') :
    d.SameNodes e' where
  handles := h'.handles.trans h.handles
  next := h'.next.trans h.next
  content := fun x => (h'.content x).trans (h.content x)

theorem SameNodes.contains_eq {d d' : Document} (h : d.SameNodes d') (x : Handle) :
    d'.contains x = d.contains x := by
  rw [Bool.eq_iff_iff, contains_iff, contains_iff]
  exact h.handles.mem_iff

theorem Arranged.trans {d e e' : Document} {kids kids' : Handle → List Handle}
    (h : d.Arranged e kids) (h' : e.Arranged e' kids') : d.Arranged e' kids' where
  toSameNodes := h.toSameNodes.trans h'.toSameNodes
  children := h'.children
  parent := h'.parent

/-- **What stands above a node** depends on the parents on the way up alone. -/
theorem reflTransGen_iff_of_parent? {d e : Document} {p : Handle}
    (h : ∀ x, Relation.ReflTransGen d.IsParent x p → e.parent? x = d.parent? x) {k : Handle} :
    Relation.ReflTransGen e.IsParent k p ↔ Relation.ReflTransGen d.IsParent k p := by
  constructor
  · intro hk
    induction hk using Relation.ReflTransGen.head_induction_on with
    | refl => exact .refl
    | head hab _ ih => exact .head ((h _ ih).symm.trans hab) ih
  · intro hk
    induction hk using Relation.ReflTransGen.head_induction_on with
    | refl => exact .refl
    | head hab hb ih => exact .head ((h _ hb).trans hab) ih

/-- Moves one after the other: the later ones are made if the earlier ones were. -/
theorem moveAllUnder_append {d d' : Document} {p : Handle} {before : List Handle}
    (h : d.moveAllUnder p before = (d', .ok ())) (after : List Handle) :
    d.moveAllUnder p (before ++ after) = d'.moveAllUnder p after := by
  induction before generalizing d with
  | nil =>
    obtain rfl := congrArg Prod.fst h
    rfl
  | cons c before ih =>
    rw [moveAllUnder] at h
    rw [List.cons_append, moveAllUnder]
    split at h
    · next moved hmove => exact ih h
    · next hfailed => exact absurd h (hfailed d')

section

variable {d : Document} (hd : d.WellFormed) {p : Handle}

include hd

/-- A node that is not moved keeps its parent. -/
theorem WellFormed.parent?_of_not_moved {e : Document} {moved : List Handle}
    (he : d.Arranged e (d.childrenAfter p moved)) {x : Handle} (hx : x ∉ moved) :
    e.parent? x = d.parent? x := by
  refine Option.ext fun q => ?_
  rw [he.parent, hd.parent?_eq_some_iff, childrenAfter]
  by_cases hq : q = p <;> simp [hq, hx]

variable (hp : d.contains p = true)

include hp

/-- **Nodes that do not stand above `p` become its last children**, in order. -/
theorem WellFormed.arranged_moveAllUnder {cs : List Handle} (hcs : cs.Nodup)
    (hlive : ∀ c ∈ cs, d.contains c = true)
    (hfree : ∀ c ∈ cs, ¬Relation.ReflTransGen d.IsParent c p) :
    ∃ d', d.moveAllUnder p cs = (d', .ok ()) ∧ d.Arranged d' (d.childrenAfter p cs) := by
  induction cs generalizing d with
  | nil => exact ⟨d, rfl, by rw [childrenAfter_nil]; exact hd.arranged_self⟩
  | cons c cs ih =>
    obtain ⟨hno, hcs⟩ := List.nodup_cons.1 hcs
    obtain ⟨hclive, hlive⟩ := List.forall_mem_cons.1 hlive
    obtain ⟨hcfree, hfree⟩ := List.forall_mem_cons.1 hfree
    obtain ⟨e, hmove, he⟩ := hd.arranged_moveUnder hp hclive hcfree
    have hwf := hd.moveUnder p c
    rw [hmove] at hwf
    -- the way up from `p` does not lead through `c`
    have hway : ∀ x, Relation.ReflTransGen d.IsParent x p → e.parent? x = d.parent? x := by
      intro x hx
      refine hd.parent?_of_not_moved (childrenAfter_singleton d p c ▸ he) fun hm => ?_
      exact hcfree (List.mem_singleton.1 hm ▸ hx)
    obtain ⟨d', hmoves, harranged⟩ := ih hwf ((he.contains_eq p).trans hp) hcs
      (fun x hx => (he.contains_eq x).trans (hlive x hx))
      fun x hx => mt (reflTransGen_iff_of_parent? hway).1 (hfree x hx)
    have hkids : e.childrenAfter p cs = d.childrenAfter p (c :: cs) := by
      funext h
      rw [childrenAfter, he.children, childrenAfter, List.filter_append, filter_not_mem_cons]
      by_cases hh : h = p <;> simp [hh, hno]
    rw [hkids] at harranged
    exact ⟨d', by rw [Document.moveAllUnder, hmove]; exact hmoves, he.trans harranged⟩

/-- **The first node that stands above `p`** is taken away from its parent and stays there, after
those before it were moved. -/
theorem WellFormed.arranged_moveAllUnder_of_ancestor {before : List Handle} {k : Handle}
    (after : List Handle) (hcs : before.Nodup) (hlive : ∀ c ∈ before, d.contains c = true)
    (hk : d.contains k = true)
    (hfree : ∀ c ∈ before, ¬Relation.ReflTransGen d.IsParent c p)
    (habove : Relation.ReflTransGen d.IsParent k p) :
    ∃ d' e, d.moveAllUnder p (before ++ k :: after) = (d', .error (.move e)) ∧
      d.Arranged d' fun h => (d.childrenAfter p before h).filter (· ≠ k) := by
  obtain ⟨moved, hmoves, hmoved⟩ := hd.arranged_moveAllUnder hp hcs hlive hfree
  have hwf := hd.moveAllUnder p before
  rw [hmoves] at hwf
  have hway : ∀ x, Relation.ReflTransGen d.IsParent x p → moved.parent? x = d.parent? x := by
    intro x hx
    exact hd.parent?_of_not_moved hmoved fun hm => hfree x hm hx
  obtain ⟨e, he⟩ := hwf.moveUnder_of_ancestor ((hmoved.contains_eq k).trans hk)
    ((reflTransGen_iff_of_parent? hway).2 habove)
  refine ⟨moved.detach k, e, ?_, hmoved.trans ?_⟩
  · rw [moveAllUnder_append hmoves, Document.moveAllUnder, he]
  · simp only [← hmoved.children]
    exact hwf.arranged_detach k

end

/-! ## All children of a fragment -/

section

variable {d : Document} (hd : d.WellFormed) {p c : Handle}

include hd

/-- Children of `c` that were moved follow those of `p`, and `c` has the rest. -/
theorem WellFormed.childrenAfter_eq {cs : List Handle} (hcs : ∀ x ∈ cs, x ∈ d.children c)
    (hpc : p ≠ c) : d.childrenAfter p cs = fun h =>
      if h = p then d.children p ++ cs
      else if h = c then (d.children c).filter (· ∉ cs)
      else d.children h := by
  have hother : ∀ {h}, h ≠ c → (d.children h).filter (· ∉ cs) = d.children h := fun hne =>
    List.filter_eq_self.2 fun x hx => decide_eq_true fun hm =>
      hne (hd.isForest.parent_unique _ _ x hx (hcs x hm))
  funext h
  rw [childrenAfter]
  by_cases hh : h = p
  · subst hh
    rw [if_pos rfl, if_pos rfl, hother hpc]
  · rw [if_neg hh, if_neg hh, List.append_nil]
    by_cases hhc : h = c
    · rw [if_pos hhc, hhc]
    · rw [if_neg hhc, hother hhc]

/-- After all children of `c` were moved, those of `p` are followed by them, and `c` has none. -/
theorem WellFormed.childrenAfter_children : d.childrenAfter p (d.children c) = fun h =>
    if p = c then d.children h
    else if h = p then d.children p ++ d.children c
    else if h = c then []
    else d.children h := by
  have hnone : (d.children c).filter (· ∉ d.children c) = [] :=
    List.filter_eq_nil_iff.2 fun x hx => by simpa using hx
  by_cases hpc : p = c
  · subst hpc
    funext h
    rw [if_pos rfl, childrenAfter]
    by_cases hh : h = p
    · rw [if_pos hh, hh, hnone, List.nil_append]
    · have hkeep : ∀ x ∈ d.children h, x ∉ d.children p := fun x hx hm =>
        hh (hd.isForest.parent_unique _ _ x hx hm)
      rw [if_neg hh, List.append_nil]
      exact List.filter_eq_self.2 fun x hx => decide_eq_true (hkeep x hx)
  · rw [hd.childrenAfter_eq (fun _ hx => hx) hpc, hnone]
    simp only [if_neg hpc]

/-- After the move of `k` failed, the children of `p` are followed by those of `c` before `k`, and
`c` has those after it. -/
theorem WellFormed.filter_childrenAfter {before after : List Handle} {k : Handle}
    (hc : d.children c = before ++ k :: after) (hpc : p ≠ c) :
    (fun h => (d.childrenAfter p before h).filter (· ≠ k)) = fun h =>
      if h = p then d.children p ++ before
      else if h = c then after
      else d.children h := by
  have hnodup := hd.nodup_children c
  rw [hc, List.nodup_append', List.nodup_cons] at hnodup
  obtain ⟨-, ⟨hafter, -⟩, hdisjoint⟩ := hnodup
  have hbefore : k ∉ before := fun hm => hdisjoint hm List.mem_cons_self
  have hmem : ∀ x ∈ before, x ∈ d.children c := fun x hx => by
    rw [hc]
    exact List.mem_append_left _ hx
  have hk : k ∈ d.children c := by
    rw [hc]
    exact List.mem_append_right _ List.mem_cons_self
  have hother : ∀ {h}, h ≠ c → k ∉ d.children h := fun hne hm =>
    hne (hd.isForest.parent_unique _ _ k hm hk)
  have hkeep : ∀ {ks : List Handle}, k ∉ ks → ks.filter (· ≠ k) = ks := fun hk =>
    List.filter_eq_self.2 fun x hx => decide_eq_true fun e => hk (e ▸ hx)
  have hrest : (d.children c).filter (· ∉ before) = k :: after := by
    rw [hc, List.filter_append, List.filter_eq_nil_iff.2 fun x hx => by simpa using hx,
      List.nil_append, List.filter_eq_self]
    exact fun x hx => decide_eq_true fun hm => hdisjoint hm hx
  funext h
  rw [hd.childrenAfter_eq hmem hpc, hrest]
  dsimp only
  by_cases hh : h = p
  · rw [if_pos hh, if_pos hh, List.filter_append, hkeep (hother hpc), hkeep hbefore]
  · rw [if_neg hh, if_neg hh]
    by_cases hhc : h = c
    · rw [if_pos hhc, if_pos hhc, List.filter_cons_of_neg (by simp), hkeep hafter]
    · rw [if_neg hhc, if_neg hhc, hkeep (hother hhc)]

end

/-! ## Appending -/

theorem append_of_ne_fragment {d : Document} {p c : Handle} (hp : d.contains p = true)
    (hc : d.contains c = true) (hne : d.content? c ≠ some .fragment) :
    d.append p c = d.moveUnder p c := by
  have hany : (d.content? c).any Content.isFragment = false := by
    cases ha : d.content? c with
    | none => rfl
    | some a => cases a <;> first | rfl | exact absurd ha hne
  simp [append, firstRemoved?, hp, hc, hany]

theorem append_of_fragment {d : Document} {p c : Handle} (hp : d.contains p = true)
    (hf : d.content? c = some .fragment) : d.append p c = d.moveAllUnder p (d.children c) := by
  have hc : d.contains c = true := by
    cases ht : d.tree? c with
    | none => rw [content?, ht] at hf; cases hf
    | some t => rw [contains, ht]; rfl
  simp [append, firstRemoved?, hp, hc, hf, Content.isFragment]

/-- What appending `c` to `p` does. -/
structure AppendMoves (d : Document) (p c : Handle) : Prop where
  /-- To a removed node nothing is appended. -/
  parent_removed : d.contains p = false → d.append p c = (d, .error (.removed p))
  /-- A removed node is not appended. -/
  child_removed : d.contains p = true → d.contains c = false →
    d.append p c = (d, .error (.removed c))
  /-- A node becomes the last child of one that is not under it, and is gone from its old place. -/
  node_moved : d.contains p = true → d.contains c = true → d.content? c ≠ some .fragment →
    ¬Relation.ReflTransGen d.IsParent c p →
    ∃ d', d.append p c = (d', .ok ()) ∧ d'.parent? c = some p ∧
      d.Arranged d' fun h => (d.children h).filter (· ≠ c) ++ if h = p then [c] else []
  /-- A node does not come under itself, and has no parent then. -/
  node_refused : d.contains p = true → d.contains c = true → d.content? c ≠ some .fragment →
    Relation.ReflTransGen d.IsParent c p →
    ∃ d' e, d.append p c = (d', .error (.move e)) ∧ d'.parent? c = none ∧
      d.Arranged d' fun h => (d.children h).filter (· ≠ c)
  /-- The children of a fragment follow those of `p` if `p` is not under any of them. A fragment
  that is appended to itself stays as it is. -/
  fragment_moved : d.contains p = true → d.content? c = some .fragment →
    (∀ k ∈ d.children c, ¬Relation.ReflTransGen d.IsParent k p) →
    ∃ d', d.append p c = (d', .ok ()) ∧ d.Arranged d' fun h =>
      if p = c then d.children h
      else if h = p then d.children p ++ d.children c
      else if h = c then []
      else d.children h
  /-- If `p` is under a child of a fragment, the children before it follow those of `p`, it has no
  parent then, and the children after it stay. -/
  fragment_refused : d.contains p = true → d.content? c = some .fragment →
    (∃ k ∈ d.children c, Relation.ReflTransGen d.IsParent k p) →
    ∃ d' e before k after, d.append p c = (d', .error (.move e)) ∧
      d.children c = before ++ k :: after ∧ Relation.ReflTransGen d.IsParent k p ∧
      (∀ x ∈ before, ¬Relation.ReflTransGen d.IsParent x p) ∧ d'.parent? k = none ∧
      d.Arranged d' fun h =>
        if h = p then d.children p ++ before
        else if h = c then after
        else d.children h

/-- **Appending moves nodes in order**, as far as it goes, and does nothing else. Whatever was done
to a document, no node is created, removed or there twice afterwards, and all are what they were. -/
theorem append_moves_nodes {d : Document} (hd : d.Reachable) (p c : Handle) :
    d.AppendMoves p c := by
  have hwf := hd.wellFormed
  constructor
  · intro hp
    exact append_of_removed (by simp [firstRemoved?, hp])
  · intro hp hc
    exact append_of_removed (by simp [firstRemoved?, hp, hc])
  · intro hp hc hne hfree
    obtain ⟨d', hmove, harranged⟩ := hwf.arranged_moveUnder hp hc hfree
    refine ⟨d', by rw [append_of_ne_fragment hp hc hne, hmove], ?_, harranged⟩
    rw [harranged.parent, if_pos rfl]
    exact List.mem_append_right _ List.mem_cons_self
  · intro hp hc hne habove
    obtain ⟨e, hmove⟩ := hwf.moveUnder_of_ancestor hc habove
    exact ⟨d.detach c, e, by rw [append_of_ne_fragment hp hc hne, hmove], hwf.parent?_detach c,
      hwf.arranged_detach c⟩
  · intro hp hf hfree
    have hlive : ∀ k ∈ d.children c, d.contains k = true := fun k hk =>
      (hwf.contains_of_isParent (hwf.parent?_eq_some_iff.2 hk)).2
    obtain ⟨d', hmoves, harranged⟩ :=
      hwf.arranged_moveAllUnder hp (hwf.nodup_children c) hlive hfree
    rw [hwf.childrenAfter_children] at harranged
    exact ⟨d', by rw [append_of_fragment hp hf, hmoves], harranged⟩
  · intro hp hf hsome
    obtain ⟨before, k, after, hc, habove, hfree⟩ := exists_first_of_mem hsome
    have hparent : ∀ x ∈ d.children c, d.IsParent c x := fun x => hwf.parent?_eq_some_iff.2
    have hnodup := hwf.nodup_children c
    rw [hc] at hparent hnodup
    have hlive : ∀ x ∈ before ++ k :: after, d.contains x = true := fun x hx =>
      (hwf.contains_of_isParent (hparent x hx)).2
    -- a fragment is not under its own child
    have hpc : p ≠ c := by
      rintro rfl
      have hk := hparent k (List.mem_append_right _ List.mem_cons_self)
      exact hwf.not_ancestor_self p (Relation.TransGen.head' hk habove)
    obtain ⟨d', e, hmoves, harranged⟩ := hwf.arranged_moveAllUnder_of_ancestor hp after
      (List.nodup_append'.1 hnodup).1 (fun x hx => hlive x (List.mem_append_left _ hx))
      (hlive k (List.mem_append_right _ List.mem_cons_self)) hfree habove
    refine ⟨d', e, before, k, after, by rw [append_of_fragment hp hf, hc, hmoves], hc, habove,
      hfree, ?_, ?_⟩
    · exact harranged.parent?_eq_none fun q hm => by simp at hm
    · rwa [hwf.filter_childrenAfter hc hpc] at harranged

/-- A fragment with three children is appended to a node under the second of them. -/
theorem append_moves_nodes_partly :
    let d := empty.run [.createElement none "p", .createFragment, .createText "x",
      .createElement none "b", .createComment "y", .append 1 2, .append 1 3, .append 1 4,
      .append 3 0]
    d.Reachable ∧ d.children 1 = [2, 3, 4] ∧ d.IsParent 3 0 ∧
      ∃ d' e, d.append 0 1 = (d', .error (.move e)) ∧ d'.children 0 = [2] ∧
        d'.parent? 3 = none ∧ d'.children 3 = [0] ∧ d'.children 1 = [4] := by
  intro d
  have hd : d.Reachable := reachable_run _
  have hunder : d.IsParent 3 0 := by
    show d.parent? 0 = some 3
    decide +kernel
  obtain ⟨d', e, -, -, -, happend, -⟩ := (append_moves_nodes hd 0 1).fragment_refused
    (by decide +kernel) (by decide +kernel) ⟨3, by decide +kernel, .single hunder⟩
  have hd' : d' = (d.append 0 1).1 := by rw [happend]
  refine ⟨hd, by decide +kernel, hunder, d', e, happend, ?_⟩
  rw [hd']
  decide +kernel

end Document

end MarkupTemplate
