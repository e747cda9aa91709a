import MarkupTemplate.Proofs.Document.Relocation

/-!
# Putting a node in the place of another

The tree that comes is taken away from its place first, and then the place of the other is looked
for. So both may have the same parent, and the tree may even have been a part of the one that it
replaces: then it is not removed with it.

Results:
* `Forest.mem_handles_replaced_iff`: what is removed is the old tree, without the new one.
* `Forest.view?_replaced`: what is seen of the other nodes.
* `WellFormed.replaced`: the new node stands where the old one was.
* `replaceChild_takes_place`: all of this of whatever operations lead to.
-/

namespace MarkupTemplate

namespace Forest

/-! ## One tree in place of another -/

section

variable {f : Forest Node} (hf : f.handles.Nodup) {old new : Handle} {s t : Tree Node}
  (hs : f.find? old = some s) (ht : f.find? new = some t) (hout : old ∉ t.handles)

include hf hs ht hout

/-- The old tree is still there when the new one is taken away, perhaps from it. -/
theorem find?_taken :
    (f.splice new nil).find? old = some ⟨s.label, s.children.splice new nil⟩ := by
  have hne : new ≠ old := fun e => hout (e ▸ handle_of_find? ht ▸ List.mem_cons_self)
  have hbelow : ∀ u, f.find? new = some u → old ∉ u.children.handles := by
    intro u hu hm
    obtain rfl := Option.some.inj (ht.symm.trans hu)
    exact hout (List.mem_cons_of_mem _ hm)
  rw [find?_splice hf hbelow hne List.not_mem_nil, hs]
  rfl

/-- It is what it was, without the new one. -/
theorem mem_handles_taken_tree_iff {h : Handle} :
    h ∈ (Tree.mk s.label (s.children.splice new nil)).handles ↔ h ∈ s.handles ∧ h ∉ t.handles := by
  obtain ⟨a, below⟩ := s
  have ha : a.handle = old := handle_of_find? hs
  have hpart := handles_sublist_of_find? (find?_taken hf hs ht hout)
  constructor
  · intro hh
    refine ⟨?_, ((mem_handles_taken_iff hf ht).1 (hpart.subset hh)).2⟩
    exact ((handles_splice_sublist new below).cons_cons a.handle).subset hh
  · rintro ⟨hh, hno⟩
    rcases List.mem_cons.1 hh with rfl | hh
    · exact List.mem_cons_self
    · refine List.mem_cons_of_mem _ ?_
      by_cases hin : new ∈ below.handles
      · obtain ⟨u, hu⟩ := Option.ne_none_iff_exists'.1 fun hn => find?_eq_none_iff.1 hn hin
        obtain rfl := Option.some.inj ((find?_of_find? hf hs hu).symm.trans ht)
        have hnodup := (List.nodup_cons.1 (hf.sublist (handles_sublist_of_find? hs))).2
        exact (mem_handles_taken_iff hnodup hu).2 ⟨hh, hno⟩
      · rwa [splice_of_not_mem nil hin]

/-- **What is removed is the old tree**, without the new one. -/
theorem mem_handles_replaced_iff {h : Handle} :
    h ∈ ((f.splice new nil).splice old t.toForest).handles ↔
      h ∈ f.handles ∧ (h ∈ s.handles → h ∈ t.handles) := by
  have hpruned := hf.sublist (handles_splice_sublist new f)
  have hfound := find?_taken hf hs ht hout
  have hroom := handles_splice t.toForest hpruned hfound
  have hall := hroom.trans (handles_taken hf ht)
  have hdisjoint := (List.nodup_append'.1 (hall.nodup_iff.2 hf)).2.2
  have hgone := mem_handles_taken_tree_iff hf hs ht hout (h := h)
  have hmem : h ∈ ((f.splice new nil).splice old t.toForest).handles ∨
      h ∈ s.handles ∧ h ∉ t.handles ↔ h ∈ f.handles := by
    rw [← hgone, ← List.mem_append]
    exact hall.mem_iff
  constructor
  · intro hh
    refine ⟨hmem.1 (.inl hh), fun hm => ?_⟩
    by_contra hno
    exact hdisjoint hh (hgone.2 ⟨hm, hno⟩)
  · rintro ⟨hh, himp⟩
    exact (hmem.2 hh).resolve_right fun hm => hm.2 (himp hm.1)

/-- The new tree is found there as it was. -/
theorem find?_replaced {h : Handle} (hh : h ∈ t.handles) :
    ((f.splice new nil).splice old t.toForest).find? h = t.toForest.find? h := by
  have hno : h ∉ (f.splice new nil).handles := fun hm => ((mem_handles_taken_iff hf ht).1 hm).2 hh
  have hin : h ∈ t.toForest.handles := by rwa [Tree.handles_toForest]
  exact find?_splice_new hin hno (mem_handles_of_find? (find?_taken hf hs ht hout))

/-- **Of the nodes that are left**, the same is seen as before, but that the new one is no longer a
child where it was, and is one in place of the old one. -/
theorem view?_replaced {h : Handle}
    (hh : h ∈ ((f.splice new nil).splice old t.toForest).handles) :
    ((f.splice new nil).splice old t.toForest).view? h = (f.view? h).map fun e =>
      (e.1, (e.2.filter (· ≠ new)).map fun x => if x = old then new else x) := by
  by_cases hin : h ∈ t.handles
  · rw [view?, find?_replaced hf hs ht hout hin, ← view?, view?_tree hf ht hin]
    refine Option.map_congr fun e he => Prod.ext rfl ?_
    have htree := view?_tree hf ht hin
    rw [he, Option.map_some] at htree
    -- the old tree is not in the new one
    have hkeep : ∀ x ∈ e.2.filter (· ≠ new), (if x = old then new else x) = id x := by
      intro x hx
      have hmem := mem_handles_of_view? htree hx
      rw [Tree.handles_toForest] at hmem
      have hne : x ≠ old := fun h => hout (h ▸ hmem)
      exact if_neg hne
    exact (List.map_id _).symm.trans (List.map_congr_left hkeep).symm
  · have hgone : h ∉ (Tree.mk s.label (s.children.splice new nil)).handles := fun hm =>
      have hm := (mem_handles_taken_tree_iff hf hs ht hout).1 hm
      hm.2 (((mem_handles_replaced_iff hf hs ht hout).1 hh).2 hm.1)
    have hno : h ∉ t.toForest.handles := by rwa [Tree.handles_toForest]
    have hpruned := hf.sublist (handles_splice_sublist new f)
    have hplace : ∀ ks : List Handle,
        (ks.flatMap fun x => if x = old then t.toForest.rootHandles else [x]) =
          ks.map fun x => if x = old then new else x := by
      intro ks
      rw [rootHandles_of_find? ht, List.map_eq_flatMap]
      refine congrArg (ks.flatMap ·) (funext fun x => ?_)
      split <;> rfl
    rw [view?_splice hpruned (find?_taken hf hs ht hout) hgone hno, view?_taken hf ht hin,
      Option.map_map]
    simp only [Function.comp_def, hplace]

end

end Forest

namespace Document

/-! ## One node in place of another -/

/-- The node `new` stands in `d'` where `old` stood in `d`. -/
structure Replaced (d d' : Document) (old new : Handle) : Prop where
  /-- No node is there twice. -/
  nodup : d'.forest.handles.Nodup
  /-- No handle is given. -/
  next : d'.next = d.next
  /-- What is removed is `old` and what stands under it, but not `new` and what stands under it. -/
  contains : ∀ h, d'.contains h = true ↔ d.contains h = true ∧
    (Relation.ReflTransGen d.IsParent old h → Relation.ReflTransGen d.IsParent new h)
  /-- What is left is what it was. -/
  content : ∀ h, d'.contains h = true → d'.content? h = d.content? h
  /-- The children stay in order, `new` leaves its place, and then `old` makes place for it. -/
  children : ∀ h, d'.contains h = true → d'.children h =
    ((d.children h).filter (· ≠ new)).map fun x => if x = old then new else x
  /-- The parent of `new` is that of `old`, if it has one. -/
  parent_new : d'.parent? new = d.parent? old
  /-- All other nodes keep theirs. -/
  parent : ∀ h, d'.contains h = true → h ≠ new → d'.parent? h = d.parent? h
  /-- The tree under `new` stays. -/
  tree : d'.tree? new = d.tree? new

section

variable {d d' : Document} (hd : d.WellFormed) (hd' : d'.WellFormed) {old new : Handle}
  (hfree : ¬Relation.ReflTransGen d.IsParent new old)
  (hcontains : ∀ h, d'.contains h = true ↔ d.contains h = true ∧
    (Relation.ReflTransGen d.IsParent old h → Relation.ReflTransGen d.IsParent new h))
  (hchildren : ∀ h, d'.contains h = true → d'.children h =
    ((d.children h).filter (· ≠ new)).map fun x => if x = old then new else x)

include hd' hchildren

theorem WellFormed.parent?_replaced_eq_some_iff {q x : Handle} :
    d'.parent? x = some q ↔ d'.contains q = true ∧
      ∃ y ∈ d.children q, y ≠ new ∧ (if y = old then new else y) = x := by
  rw [hd'.parent?_eq_some_iff]
  constructor
  · intro hx
    have hq := (hd'.contains_of_isParent (hd'.parent?_eq_some_iff.2 hx)).1
    rw [hchildren q hq, List.mem_map] at hx
    obtain ⟨y, hy, hyx⟩ := hx
    obtain ⟨hy, hne⟩ := List.mem_filter.1 hy
    exact ⟨hq, y, hy, of_decide_eq_true hne, hyx⟩
  · rintro ⟨hq, y, hy, hne, hyx⟩
    rw [hchildren q hq, List.mem_map]
    exact ⟨y, List.mem_filter.2 ⟨hy, decide_eq_true hne⟩, hyx⟩

include hd hfree hcontains

/-- The new node gets the parent of the old one. -/
theorem WellFormed.parent?_replaced_new : d'.parent? new = d.parent? old := by
  refine Option.ext fun q => ?_
  rw [hd'.parent?_replaced_eq_some_iff hchildren, hd.parent?_eq_some_iff]
  constructor
  · rintro ⟨-, y, hy, hne, hyx⟩
    by_cases hyold : y = old
    · rwa [← hyold]
    · rw [if_neg hyold] at hyx
      exact absurd hyx hne
  · intro hmem
    have hparent : d.IsParent q old := hd.parent?_eq_some_iff.2 hmem
    refine ⟨(hcontains q).2 ⟨(hd.contains_of_isParent hparent).1, fun hunder => ?_⟩, old, hmem,
      fun e => hfree (e ▸ .refl), if_pos rfl⟩
    -- the parent of the old node is not under it
    exact absurd (Relation.TransGen.tail' hunder hparent) (hd.not_ancestor_self old)

/-- The others that are left keep their parents. -/
theorem WellFormed.parent?_replaced_of_ne {h : Handle} (hh : d'.contains h = true)
    (hne : h ≠ new) : d'.parent? h = d.parent? h := by
  obtain ⟨-, hleft⟩ := (hcontains h).1 hh
  have hhold : h ≠ old := by
    rintro rfl
    exact hfree (hleft .refl)
  refine Option.ext fun q => ?_
  rw [hd'.parent?_replaced_eq_some_iff hchildren, hd.parent?_eq_some_iff]
  constructor
  · rintro ⟨-, y, hy, -, hyx⟩
    by_cases hyold : y = old
    · rw [if_pos hyold] at hyx
      exact absurd hyx.symm hne
    · rw [if_neg hyold] at hyx
      rwa [← hyx]
  · intro hmem
    have hparent : d.IsParent q h := hd.parent?_eq_some_iff.2 hmem
    refine ⟨(hcontains q).2 ⟨(hd.contains_of_isParent hparent).1, fun hunder => ?_⟩, h, hmem, hne,
      if_neg hhold⟩
    -- if the parent is under the old node, the node is, so both are under the new one
    rcases Relation.ReflTransGen.cases_tail (hleft (hunder.tail hparent)) with e | ⟨q', hq', hp⟩
    · exact absurd e hne
    · obtain rfl : q' = q := Option.some.inj (hp.symm.trans hparent)
      exact hq'

end

section

variable {d : Document} (hd : d.WellFormed) {old new : Handle} (hold : d.contains old = true)
  (hnew : d.contains new = true)

include hd hold hnew

/-- **A node does not take the place of one under it.** It is detached all the same. -/
theorem WellFormed.replaceChild_of_ancestor (h : Relation.ReflTransGen d.IsParent new old) :
    ∃ e, d.replaceChild old new = (d.detach new, .error (.move e)) := by
  have hthere : d.firstRemoved? [old, new] = none := by simp [firstRemoved?, hold, hnew]
  unfold Document.replaceChild
  rw [hthere]
  dsimp only
  split
  · exact ⟨_, rfl⟩
  · rw [if_pos ((hd.mem_descendants_iff_reflTransGen hnew).2 h)]
    exact ⟨_, rfl⟩

theorem WellFormed.replaceChild_of_not_ancestor {t : Tree Node} (ht : d.tree? new = some t)
    (h : ¬Relation.ReflTransGen d.IsParent new old) : d.replaceChild old new =
      ({ d with forest := (d.forest.splice new .nil).splice old t.toForest }, .ok ()) := by
  have hthere : d.firstRemoved? [old, new] = none := by simp [firstRemoved?, hold, hnew]
  have hne : old ≠ new := fun e => h (e ▸ .refl)
  unfold Document.replaceChild
  rw [hthere]
  dsimp only
  rw [if_neg hne, if_neg (mt (hd.mem_descendants_iff_reflTransGen hnew).1 h), ht]

/-- **The new node stands where the old one was.** -/
theorem WellFormed.replaced (h : ¬Relation.ReflTransGen d.IsParent new old) :
    ∃ d', d.replaceChild old new = (d', .ok ()) ∧ d.Replaced d' old new := by
  obtain ⟨s, hs⟩ := Option.isSome_iff_exists.1 hold
  obtain ⟨t, ht⟩ := Option.isSome_iff_exists.1 hnew
  have hout := mt (hd.mem_handles_iff_reflTransGen ht).1 h
  have heq := hd.replaceChild_of_not_ancestor hold hnew ht h
  have hwf := hd.replaceChild old new
  rw [heq] at hwf
  refine ⟨_, heq, ?_⟩
  generalize hd' : ({ d with forest := (d.forest.splice new .nil).splice old t.toForest } :
    Document) = d' at hwf
  have hcontains : ∀ x, d'.contains x = true ↔ d.contains x = true ∧
      (Relation.ReflTransGen d.IsParent old x → Relation.ReflTransGen d.IsParent new x) := by
    intro x
    rw [contains_iff, contains_iff, ← hd.mem_handles_iff_reflTransGen hs,
      ← hd.mem_handles_iff_reflTransGen ht, ← hd']
    exact Forest.mem_handles_replaced_iff hd.nodup hs ht hout
  have hview : ∀ x, d'.contains x = true → d'.forest.view? x = (d.forest.view? x).map fun e =>
      (e.1, (e.2.filter (· ≠ new)).map fun y => if y = old then new else y) := by
    intro x hx
    rw [contains_iff] at hx
    rw [← hd'] at hx ⊢
    exact Forest.view?_replaced hd.nodup hs ht hout hx
  have hchildren : ∀ x, d'.contains x = true → d'.children x =
      ((d.children x).filter (· ≠ new)).map fun y => if y = old then new else y := by
    intro x hx
    rw [children_eq_view?, children_eq_view?, hview x hx]
    cases d.forest.view? x <;> rfl
  constructor
  · exact hwf.nodup
  · rw [← hd']
  · exact hcontains
  · intro x hx
    rw [content?_eq_view?, content?_eq_view?, hview x hx, Option.map_map]
    rfl
  · exact hchildren
  · exact hd.parent?_replaced_new hwf h hcontains hchildren
  · exact fun x => hd.parent?_replaced_of_ne hwf h hcontains hchildren
  · have hroot : new ∈ t.handles := (hd.mem_handles_iff_reflTransGen ht).2 .refl
    rw [← hd', tree?, Forest.find?_replaced hd.nodup hs ht hout hroot, ht, Tree.toForest,
      Forest.find?, if_pos (Forest.handle_of_find? ht)]

end

/-- What it does to put `new` in the place of `old`. -/
structure ReplaceMoves (d : Document) (old new : Handle) : Prop where
  /-- A removed node has no place. -/
  old_removed : d.contains old = false → d.replaceChild old new = (d, .error (.removed old))
  /-- A removed node gets none. -/
  new_removed : d.contains old = true → d.contains new = false →
    d.replaceChild old new = (d, .error (.removed new))
  /-- A node does not come before itself or a node under it, and has no parent then. -/
  refused : d.contains old = true → d.contains new = true →
    Relation.ReflTransGen d.IsParent new old →
    ∃ d' e, d.replaceChild old new = (d', .error (.move e)) ∧ d'.parent? new = none ∧
      d.Arranged d' fun h => (d.children h).filter (· ≠ new)
  /-- Any other node stands where the old one was. -/
  replaced : d.contains old = true → d.contains new = true →
    ¬Relation.ReflTransGen d.IsParent new old →
    ∃ d', d.replaceChild old new = (d', .ok ()) ∧ d.Replaced d' old new

/-- **A node takes the place of another** if it is neither that node nor above it. Whatever was done
to a document, the other is removed then with what stands under it, but for the new one, and all
else stays. -/
theorem replaceChild_takes_place {d : Document} (hd : d.Reachable) (old new : Handle) :
    d.ReplaceMoves old new := by
  have hwf := hd.wellFormed
  constructor
  · intro hold
    simp [replaceChild, firstRemoved?, hold]
  · intro hold hnew
    simp [replaceChild, firstRemoved?, hold, hnew]
  · intro hold hnew habove
    obtain ⟨e, he⟩ := hwf.replaceChild_of_ancestor hold hnew habove
    exact ⟨d.detach new, e, he, hwf.parent?_detach new, hwf.arranged_detach new⟩
  · exact hwf.replaced

/-- A node takes the place of its parent, which has another child and two siblings. -/
theorem replaceChild_takes_place_parent :
    let d := empty.run [.createElement none "ul", .createText "x", .createElement none "li",
      .createElement none "p", .createText "y", .createComment "z", .createText "w",
      .append 0 1, .append 0 2, .append 0 6, .append 2 5, .append 2 3, .append 3 4]
    d.Reachable ∧ d.children 0 = [1, 2, 6] ∧ d.children 2 = [5, 3] ∧ d.children 3 = [4] ∧
      ∃ d', d.replaceChild 2 3 = (d', .ok ()) ∧ d'.parent? 3 = some 0 ∧
        d'.children 0 = [1, 3, 6] ∧ d'.children 3 = [4] ∧ d'.contains 2 = false ∧
        d'.contains 5 = false := by
  intro d
  have hd : d.Reachable := reachable_run _
  have hnew : d.contains 3 = true := by decide +kernel
  have hfree : ¬Relation.ReflTransGen d.IsParent 3 2 := by
    rw [← hd.wellFormed.mem_descendants_iff_reflTransGen hnew]
    decide +kernel
  obtain ⟨d', hreplace, -⟩ :=
    (replaceChild_takes_place hd 2 3).replaced (by decide +kernel) hnew hfree
  have hd' : d' = (d.replaceChild 2 3).1 := by rw [hreplace]
  refine ⟨hd, by decide +kernel, by decide +kernel, by decide +kernel, d', hreplace, ?_⟩
  rw [hd']
  decide +kernel

end Document

end MarkupTemplate
