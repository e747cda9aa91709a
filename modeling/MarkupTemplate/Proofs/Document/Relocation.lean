import MarkupTemplate.Proofs.Document.Addressing

/-!
# Taking trees from place to place

A tree that is taken away from its place and put somewhere else keeps its nodes, what they are and
their children. So does the rest of the document, but for the children of two nodes: the one that
the tree was taken from and the one that it was put under.

All that can be seen of a node is its view: what it is and which children it has.

Results:
* `Forest.view?_taken`, `Forest.view?_tree`: what is seen in the rest and in the tree.
* `Forest.view?_splice`, `Forest.view?_reshape_append`: what is seen after the tree was put
  somewhere else.
* `WellFormed.arranged_detach`: a node that is detached is the child of none.
* `WellFormed.arranged_moveUnder`: a node that is moved is the last child of its new parent.
* `WellFormed.mem_descendants_iff_reflTransGen`: a node stands under those on the way up from it.
-/

namespace MarkupTemplate

namespace Forest

/-- What a node is, and its children in order. -/
def view? (h : Handle) (f : Forest Node) : Option (Content × List Handle) :=
  (f.find? h).map fun t => (t.label.content, t.children.rootHandles)

theorem view?_eq_none_iff {h : Handle} {f : Forest Node} : f.view? h = none ↔ h ∉ f.handles :=
  Option.map_eq_none_iff.trans find?_eq_none_iff

/-- The children that are seen are there. -/
theorem mem_handles_of_view? {h x : Handle} {f : Forest Node} {e : Content × List Handle}
    (he : f.view? h = some e) (hx : x ∈ e.2) : x ∈ f.handles := by
  obtain ⟨t, ht, rfl⟩ := Option.map_eq_some_iff.1 he
  exact (handles_sublist_of_find? ht).subset
    (List.mem_cons_of_mem _ (mem_handles_of_rootHandles hx))

theorem view?_append (h : Handle) (f g : Forest Node) :
    (f ++ g).view? h = (f.view? h).or (g.view? h) := by
  rw [view?, find?_append, Option.map_or]
  rfl

theorem view?_cons_of_ne {a : Node} {h : Handle} (ha : a.handle ≠ h)
    (below beside : Forest Node) :
    (cons a below beside).view? h = (below.view? h).or (beside.view? h) := by
  rw [view?, find?_cons_of_ne ha, Option.map_or]
  rfl

/-! ## Taking a tree away -/

theorem rootHandles_of_find? {c : Handle} {f : Forest Node} {t : Tree Node}
    (ht : f.find? c = some t) : t.toForest.rootHandles = [c] :=
  congrArg ([·]) (handle_of_find? ht)

theorem rootHandles_splice (c : Handle) (new f : Forest Node) :
    (f.splice c new).rootHandles =
      f.rootHandles.flatMap fun x => if x = c then new.rootHandles else [x] := by
  induction f with
  | nil => rfl
  | cons a below beside _ ih =>
    rw [rootHandles_cons, List.flatMap_cons, ← ih]
    by_cases ha : a.handle = c
    · rw [splice, if_pos ha, if_pos ha, rootHandles_append]
    · rw [splice, if_neg ha, if_neg ha, rootHandles_cons]
      rfl

section

variable {c h : Handle} {f : Forest Node} (hf : f.handles.Nodup)

include hf

/-- **Outside, what is seen stays**, but for the trees that take the place of one. -/
theorem view?_splice {t : Tree Node} (ht : f.find? c = some t) (hh : h ∉ t.handles)
    {new : Forest Node} (hnew : h ∉ new.handles) :
    (f.splice c new).view? h = (f.view? h).map fun e =>
      (e.1, e.2.flatMap fun x => if x = c then new.rootHandles else [x]) := by
  have hne : c ≠ h := fun e => hh (e ▸ handle_of_find? ht ▸ List.mem_cons_self)
  have hbelow : ∀ s, f.find? c = some s → h ∉ s.children.handles := by
    intro s hs hm
    obtain rfl := Option.some.inj (ht.symm.trans hs)
    exact hh (List.mem_cons_of_mem _ hm)
  rw [view?, view?, find?_splice hf hbelow hne hnew, Option.map_map, Option.map_map]
  refine Option.map_congr fun s _ => ?_
  rw [Function.comp_apply, Function.comp_apply, rootHandles_splice]

variable {t : Tree Node} (ht : f.find? c = some t)

include ht

/-- A tree that is taken away takes its nodes with it. -/
theorem mem_handles_taken_iff : h ∈ (f.splice c nil).handles ↔ h ∈ f.handles ∧ h ∉ t.handles := by
  have htaken := handles_taken hf ht
  rw [Tree.handles_toForest] at htaken
  have hnodup := htaken.nodup_iff.2 hf
  rw [← htaken.mem_iff, List.mem_append]
  constructor
  · intro hh
    exact ⟨.inl hh, fun hm => (List.nodup_append'.1 hnodup).2.2 hh hm⟩
  · rintro ⟨hh | hh, hno⟩
    · exact hh
    · exact absurd hh hno

/-- **Outside, what is seen stays** when a tree is taken away, but that its root is nobody's
child. -/
theorem view?_taken (hh : h ∉ t.handles) :
    (f.splice c nil).view? h = (f.view? h).map fun e => (e.1, e.2.filter (· ≠ c)) := by
  have hfilter : ∀ ks : List Handle,
      (ks.flatMap fun x => if x = c then (nil : Forest Node).rootHandles else [x]) =
        ks.filter (· ≠ c) := by
    intro ks
    induction ks with
    | nil => rfl
    | cons k ks ih =>
      rw [List.flatMap_cons, ih, List.filter_cons]
      by_cases hk : k = c <;> simp [hk]
  rw [view?_splice hf ht hh List.not_mem_nil]
  simp only [hfilter]

/-- **In the tree, what is seen stays.** Its root is no child there. -/
theorem view?_tree (hh : h ∈ t.handles) :
    t.toForest.view? h = (f.view? h).map fun e => (e.1, e.2.filter (· ≠ c)) := by
  obtain ⟨a, below⟩ := t
  have ha : a.handle = c := handle_of_find? ht
  have hnodup := hf.sublist (handles_sublist_of_find? ht)
  obtain ⟨hno, hbelow⟩ := List.nodup_cons.1 hnodup
  -- the tree under a node of it is found in the forest, and the root is not below any of them
  have hfound : ∃ s, (cons a below nil).find? h = some s ∧ f.find? h = some s ∧
      c ∉ s.children.rootHandles := by
    rcases List.mem_cons.1 hh with rfl | hh
    · refine ⟨⟨a, below⟩, by rw [find?, if_pos rfl], ha ▸ ht, fun hm => hno ?_⟩
      exact ha ▸ mem_handles_of_rootHandles hm
    · obtain ⟨s, hs⟩ := Option.ne_none_iff_exists'.1 fun hn => find?_eq_none_iff.1 hn hh
      have hne : a.handle ≠ h := fun e => hno (e ▸ hh)
      refine ⟨s, by rw [find?_cons_of_ne hne, hs, Option.some_or], find?_of_find? hf ht hs,
        fun hm => hno ?_⟩
      have hin : s.handles.Sublist below.handles := handles_sublist_of_find? hs
      exact ha ▸ hin.subset (List.mem_cons_of_mem _ (mem_handles_of_rootHandles hm))
  obtain ⟨s, hs, hs', hc⟩ := hfound
  have hkeep : s.children.rootHandles.filter (· ≠ c) = s.children.rootHandles :=
    List.filter_eq_self.2 fun x hx => decide_eq_true fun e => hc (e ▸ hx)
  rw [Tree.toForest, view?, view?, hs, hs', Option.map_some, Option.map_some]
  exact congrArg some (Prod.ext rfl hkeep.symm)

end

/-! ## Putting a tree somewhere else -/

section

variable {c h : Handle} {new : Forest Node} (hnew : h ∈ new.handles)

include hnew

/-- Trees that take the place of another are found there. -/
theorem find?_splice_new {f : Forest Node} (hf : h ∉ f.handles) (hc : c ∈ f.handles) :
    (f.splice c new).find? h = new.find? h := by
  obtain ⟨s, hs⟩ := Option.ne_none_iff_exists'.1 fun hn => find?_eq_none_iff.1 hn hnew
  induction f with
  | nil => cases hc
  | cons a below beside ih₁ ih₂ =>
    rw [handles_cons, List.mem_cons, List.mem_append, not_or, not_or] at hf
    obtain ⟨hha, hbelow, hbeside⟩ := hf
    by_cases ha : a.handle = c
    · rw [splice, if_pos ha, find?_append, hs, Option.some_or]
    · rw [splice, if_neg ha, find?_cons_of_ne (Ne.symm hha)]
      by_cases hin : c ∈ below.handles
      · rw [ih₁ hbelow hin, hs, Option.some_or]
      · rw [handles_cons, List.mem_cons, List.mem_append] at hc
        have hc := (hc.resolve_left (Ne.symm ha)).resolve_left hin
        rw [splice_of_not_mem new hin, find?_eq_none_iff.2 hbelow, Option.none_or, ih₂ hbeside hc]

/-- Trees that are put under a node are found there. -/
theorem find?_reshape_append_new {f : Forest Node} (hf : h ∉ f.handles) (hc : c ∈ f.handles) :
    (f.reshape c (· ++ new)).find? h = new.find? h := by
  obtain ⟨s, hs⟩ := Option.ne_none_iff_exists'.1 fun hn => find?_eq_none_iff.1 hn hnew
  induction f with
  | nil => cases hc
  | cons a below beside ih₁ ih₂ =>
    rw [handles_cons, List.mem_cons, List.mem_append, not_or, not_or] at hf
    obtain ⟨hha, hbelow, hbeside⟩ := hf
    by_cases ha : a.handle = c
    · rw [reshape, if_pos ha, find?_cons_of_ne (Ne.symm hha), find?_append,
        find?_eq_none_iff.2 hbelow, Option.none_or, hs, Option.some_or]
    · rw [reshape, if_neg ha, find?_cons_of_ne (Ne.symm hha)]
      by_cases hin : c ∈ below.handles
      · rw [ih₁ hbelow hin, hs, Option.some_or]
      · rw [handles_cons, List.mem_cons, List.mem_append] at hc
        have hc := (hc.resolve_left (Ne.symm ha)).resolve_left hin
        rw [reshape_of_not_mem _ hin, find?_eq_none_iff.2 hbelow, Option.none_or, ih₂ hbeside hc]

end

/-- **Outside, what is seen stays** when trees are put under a node, but that the node gets their
roots as its last children. -/
theorem view?_reshape_append {c h : Handle} {new f : Forest Node} (hf : f.handles.Nodup)
    (hnew : h ∉ new.handles) :
    (f.reshape c (· ++ new)).view? h = (f.view? h).map fun e =>
      (e.1, e.2 ++ if h = c then new.rootHandles else []) := by
  induction f with
  | nil => rfl
  | cons a below beside ih₁ ih₂ =>
    obtain ⟨hno, -, hbelow, hbeside, -⟩ := nodup_handles_cons.1 hf
    by_cases hh : a.handle = h
    · subst hh
      by_cases ha : a.handle = c
      · rw [reshape, if_pos ha, if_pos ha, view?, view?, find?, find?, if_pos rfl, if_pos rfl,
          Option.map_some, Option.map_some, Option.map_some, rootHandles_append]
      · rw [reshape, if_neg ha, if_neg ha, view?, view?, find?, find?, if_pos rfl, if_pos rfl,
          Option.map_some, Option.map_some, Option.map_some, rootHandles_reshape, List.append_nil]
    · rw [view?_cons_of_ne hh, Option.map_or, ← ih₁ hbelow, ← ih₂ hbeside]
      by_cases ha : a.handle = c
      · subst ha
        rw [reshape, if_pos rfl, view?_cons_of_ne hh, view?_append, view?_eq_none_iff.2 hnew,
          Option.or_none, reshape_of_not_mem _ hno]
      · rw [reshape, if_neg ha, view?_cons_of_ne hh]

end Forest

namespace Document

theorem content?_eq_view? (d : Document) (h : Handle) :
    d.content? h = (d.forest.view? h).map Prod.fst := by
  rw [content?, Forest.view?, Option.map_map]
  rfl

theorem children_eq_view? (d : Document) (h : Handle) :
    d.children h = ((d.forest.view? h).map Prod.snd).getD [] := by
  rw [children, Forest.view?, Option.map_map]
  rfl

/-! ## The same nodes at other places -/

/-- Both documents have the same nodes, each once and with the same data. -/
structure SameNodes (d d' : Document) : Prop where
  /-- No node is created, removed or there twice. -/
  handles : d'.forest.handles.Perm d.forest.handles
  /-- No handle is given. -/
  next : d'.next = d.next
  /-- Every node is what it was. -/
  content : ∀ h, d'.content? h = d.content? h

/-- The nodes are the same, and `kids` says which children each of them has. -/
structure Arranged (d d' : Document) (kids : Handle → List Handle) : Prop
    extends SameNodes d d' where
  /-- A node has these children. -/
  children : ∀ h, d'.children h = kids h
  /-- It is the parent of these children, and of no other node. -/
  parent : ∀ p h, d'.parent? h = some p ↔ h ∈ kids p

/-- A node that is the child of none has no parent. -/
theorem Arranged.parent?_eq_none {d d' : Document} {kids : Handle → List Handle}
    (h : d.Arranged d' kids) {x : Handle} (hx : ∀ p, x ∉ kids p) : d'.parent? x = none :=
  Option.eq_none_iff_forall_ne_some.2 fun p hp => hx p ((h.parent p x).1 hp)

section

variable {d : Document} (hd : d.WellFormed)

include hd

theorem WellFormed.arranged_self : d.Arranged d d.children where
  handles := List.Perm.refl _
  next := rfl
  content := fun _ => rfl
  children := fun _ => rfl
  parent := fun _ _ => hd.parent?_eq_some_iff

/-- What is seen of the nodes says how they are arranged. -/
theorem WellFormed.arranged_of_view? {d' : Document} (hd' : d'.WellFormed)
    (hnext : d'.next = d.next) (kids : Handle → List Handle → List Handle)
    (hview : ∀ h, d'.forest.view? h = (d.forest.view? h).map fun e => (e.1, kids h e.2))
    (hgone : ∀ h, d.contains h = false → kids h [] = []) :
    d.Arranged d' fun h => kids h (d.children h) := by
  have hchildren : ∀ h, d'.children h = kids h (d.children h) := by
    intro h
    rw [children_eq_view?, children_eq_view?, hview]
    cases he : d.forest.view? h with
    | none =>
      have hno : d.contains h = false := by
        rw [← Bool.not_eq_true, contains_iff]
        exact Forest.view?_eq_none_iff.1 he
      exact (hgone h hno).symm
    | some e => rfl
  constructor
  · constructor
    · refine (List.perm_ext_iff_of_nodup hd'.nodup hd.nodup).2 fun h => ?_
      rw [← not_iff_not, ← Forest.view?_eq_none_iff, ← Forest.view?_eq_none_iff, hview,
        Option.map_eq_none_iff]
    · exact hnext
    · intro h
      rw [content?_eq_view?, content?_eq_view?, hview, Option.map_map]
      rfl
  · exact hchildren
  · intro p h
    rw [hd'.parent?_eq_some_iff, hchildren]

/-- A node without a parent is the child of none. -/
theorem WellFormed.filter_children {c : Handle} (hc : d.parent? c = none) (h : Handle) :
    (d.children h).filter (· ≠ c) = d.children h := by
  refine List.filter_eq_self.2 fun x hx => decide_eq_true ?_
  rintro rfl
  rw [hd.parent?_eq_some_iff.2 hx] at hc
  cases hc

/-- **A node that is detached is the child of none**, and nothing else changes. -/
theorem WellFormed.arranged_detach (c : Handle) :
    d.Arranged (d.detach c) fun h => (d.children h).filter (· ≠ c) := by
  have hwf := hd.detach c
  unfold Document.detach at hwf ⊢
  split
  · next q t hq ht =>
    simp only [hq, ht] at hwf
    refine hd.arranged_of_view? hwf rfl (fun _ ks => ks.filter (· ≠ c)) (fun h => ?_)
      fun _ _ => rfl
    by_cases hh : h ∈ t.handles
    · have hno : h ∉ (d.forest.splice c .nil).handles := fun hm =>
        ((Forest.mem_handles_taken_iff hd.nodup ht).1 hm).2 hh
      rw [Forest.view?_append, Forest.view?_eq_none_iff.2 hno, Option.none_or,
        Forest.view?_tree hd.nodup ht hh]
    · have hno : h ∉ t.toForest.handles := by rwa [Tree.handles_toForest]
      rw [Forest.view?_append, Forest.view?_eq_none_iff.2 hno, Option.or_none,
        Forest.view?_taken hd.nodup ht hh]
  · next hno =>
    have hroot : d.parent? c = none := by
      cases hq : d.parent? c with
      | none => rfl
      | some q =>
        obtain ⟨t, ht⟩ := Option.isSome_iff_exists.1 (hd.contains_of_isParent hq).2
        exact absurd ht (hno q t hq)
    have hself := hd.arranged_self
    rwa [funext (hd.filter_children hroot)]

theorem WellFormed.parent?_detach (c : Handle) : (d.detach c).parent? c = none :=
  (hd.arranged_detach c).parent?_eq_none fun p hm => by simp at hm

/-- A node stands under those on the way up from it. -/
theorem WellFormed.mem_descendants_iff_reflTransGen {root n : Handle}
    (hr : d.contains root = true) :
    n ∈ d.descendants root ↔ Relation.ReflTransGen d.IsParent root n := by
  rw [hd.mem_descendants_iff, ← hd.exists_addressOf?_iff]
  exact exists_congr fun a => (hd.addressOf?_eq_some_iff hr).symm

theorem WellFormed.mem_handles_iff_reflTransGen {root n : Handle} {t : Tree Node}
    (ht : d.tree? root = some t) : n ∈ t.handles ↔ Relation.ReflTransGen d.IsParent root n := by
  have hr : d.contains root = true := by
    rw [contains, ht]
    rfl
  rw [← hd.mem_descendants_iff_reflTransGen hr, descendants, ht]
  rfl

section

variable {p c : Handle} (hp : d.contains p = true) (hc : d.contains c = true)

include hc

/-- **A node is not moved under itself.** It is detached all the same. -/
theorem WellFormed.moveUnder_of_ancestor (h : Relation.ReflTransGen d.IsParent c p) :
    ∃ e, d.moveUnder p c = (d.detach c, .error (.move e)) := by
  unfold Document.moveUnder
  dsimp only
  split
  · exact ⟨_, rfl⟩
  · rw [if_pos ((hd.mem_descendants_iff_reflTransGen hc).2 h)]
    exact ⟨_, rfl⟩

include hp

/-- **A node that is moved is the last child of its new parent**, it is gone from its old place, and
nothing else changes. -/
theorem WellFormed.arranged_moveUnder (h : ¬Relation.ReflTransGen d.IsParent c p) :
    ∃ d', d.moveUnder p c = (d', .ok ()) ∧
      d.Arranged d' fun h => (d.children h).filter (· ≠ c) ++ if h = p then [c] else [] := by
  obtain ⟨t, ht⟩ := Option.isSome_iff_exists.1 hc
  have hout := mt (hd.mem_handles_iff_reflTransGen ht).1 h
  have hmove := moveUnder_of_not_mem ht hout
  have hwf := hd.moveUnder p c
  rw [hmove] at hwf
  refine ⟨_, hmove, hd.arranged_of_view? hwf rfl
    (fun h ks => ks.filter (· ≠ c) ++ if h = p then [c] else []) (fun h => ?_) ?_⟩
  · have hpruned : p ∈ (d.forest.splice c .nil).handles :=
      (Forest.mem_handles_taken_iff hd.nodup ht).2 ⟨contains_iff.1 hp, hout⟩
    by_cases hh : h ∈ t.handles
    · have hno : h ∉ (d.forest.splice c .nil).handles := fun hm =>
        ((Forest.mem_handles_taken_iff hd.nodup ht).1 hm).2 hh
      have hhp : h ≠ p := fun e => hout (e ▸ hh)
      have hin : h ∈ t.toForest.handles := by rwa [Tree.handles_toForest]
      simp only [if_neg hhp, List.append_nil]
      rw [Forest.view?, Forest.find?_reshape_append_new hin hno hpruned, ← Forest.view?,
        Forest.view?_tree hd.nodup ht hh]
    · have hno : h ∉ t.toForest.handles := by rwa [Tree.handles_toForest]
      have hnodup := hd.nodup.sublist (Forest.handles_splice_sublist c d.forest)
      rw [Forest.view?_reshape_append hnodup hno, Forest.view?_taken hd.nodup ht hh,
        Option.map_map, Forest.rootHandles_of_find? ht]
      rfl
  · intro h hgone
    rw [if_neg fun e => ?_, List.append_nil, List.filter_nil]
    rw [e, hp] at hgone
    cases hgone

end

end

end Document

end MarkupTemplate
