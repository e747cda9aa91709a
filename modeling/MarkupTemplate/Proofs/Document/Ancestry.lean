import MarkupTemplate.Proofs.Document.WellFormed
import Mathlib.Data.List.Basic
import Mathlib.Order.WellFounded

/-!
# Parents and children

Where no handle is there twice, the parent of a node and the children of a node say the same in two
ways. A parent comes before its children in document order, so there is no way round from a node up
to itself, and walking up from a node ends.

Results:
* `Forest.parent?_eq_some_iff`: a node is the parent of its children and of nothing else.
* `Forest.idxOf_lt_of_parent?`: a parent comes before its children in document order.
* `WellFormed.map_shape?_children`: the trees of the children are those under the parent.
* `WellFormed.not_ancestor_self`: no node is its own ancestor.
* `WellFormed.addressOf?_eq`: the address of a node is that of its parent with the place of the
  node at its end.
* `WellFormed.climb_eq`: so walking up to the root finds the address, in as many rounds as there
  are nodes at most.
-/

namespace MarkupTemplate

namespace Forest

/-! ## Roots -/

@[simp] theorem rootHandles_nil : (nil : Forest Node).rootHandles = [] := rfl

@[simp] theorem rootHandles_cons (a : Node) (below beside : Forest Node) :
    (cons a below beside).rootHandles = a.handle :: beside.rootHandles := rfl

theorem rootHandles_sublist (f : Forest Node) : f.rootHandles.Sublist f.handles := by
  induction f with
  | nil => exact List.Sublist.refl _
  | cons a below beside _ ih =>
    rw [rootHandles_cons, handles_cons]
    exact (ih.trans (List.sublist_append_right _ _)).cons_cons _

theorem mem_handles_of_rootHandles {h : Handle} {f : Forest Node} (hh : h ∈ f.rootHandles) :
    h ∈ f.handles :=
  (rootHandles_sublist f).subset hh

theorem trees_map {α β : Type} (g : α → β) (f : Forest α) :
    (f.map g).trees = f.trees.map (Tree.map g) := by
  induction f with
  | nil => rfl
  | cons a below beside _ ih => exact congrArg (_ :: ·) ih

/-! ## Parents -/

theorem parent?_of_not_mem {h : Handle} {f : Forest Node} (hf : h ∉ f.handles) :
    f.parent? h = none := by
  induction f with
  | nil => rfl
  | cons a below beside ih₁ ih₂ =>
    rw [handles_cons, List.mem_cons, List.mem_append, not_or, not_or] at hf
    obtain ⟨-, hbelow, hbeside⟩ := hf
    rw [parent?, if_neg fun hr => hbelow (mem_handles_of_rootHandles hr), ih₁ hbelow, ih₂ hbeside]
    rfl

theorem mem_handles_of_parent? {h p : Handle} {f : Forest Node} (hp : f.parent? h = some p) :
    h ∈ f.handles :=
  Decidable.not_not.1 fun hn => by rw [parent?_of_not_mem hn] at hp; cases hp

/-- A root has no parent. -/
theorem parent?_of_rootHandles {h : Handle} {f : Forest Node} (hf : f.handles.Nodup)
    (hh : h ∈ f.rootHandles) : f.parent? h = none := by
  induction f with
  | nil => rfl
  | cons a below beside _ ih =>
    obtain ⟨ha, ha', -, hbeside, hdisjoint⟩ := nodup_handles_cons.1 hf
    have hbelow : h ∉ below.handles := by
      intro hb
      rcases List.mem_cons.1 hh with rfl | hh
      · exact ha hb
      · exact hdisjoint h hb (mem_handles_of_rootHandles hh)
    have hrest : beside.parent? h = none := by
      rcases List.mem_cons.1 hh with rfl | hh
      · exact parent?_of_not_mem ha'
      · exact ih hbeside hh
    rw [parent?, if_neg fun hr => hbelow (mem_handles_of_rootHandles hr),
      parent?_of_not_mem hbelow, hrest]
    rfl

/-- A node is a root or has a parent. -/
theorem mem_rootHandles_or_parent? {h : Handle} {f : Forest Node} (hh : h ∈ f.handles) :
    h ∈ f.rootHandles ∨ ∃ p, f.parent? h = some p := by
  induction f with
  | nil => exact absurd hh List.not_mem_nil
  | cons a below beside ih₁ ih₂ =>
    rw [handles_cons, List.mem_cons, List.mem_append] at hh
    rw [rootHandles_cons, parent?]
    by_cases hr : h ∈ below.rootHandles
    · exact .inr ⟨a.handle, if_pos hr⟩
    · rw [if_neg hr]
      rcases hh with rfl | hb | hb
      · exact .inl List.mem_cons_self
      · obtain ⟨p, hp⟩ := (ih₁ hb).resolve_left hr
        exact .inr ⟨p, by rw [hp, Option.some_or]⟩
      · rcases ih₂ hb with hb | ⟨p, hp⟩
        · exact .inl (List.mem_cons_of_mem _ hb)
        · cases hbelow : below.parent? h with
          | none => exact .inr ⟨p, by rw [Option.none_or, hp]⟩
          | some q => exact .inr ⟨q, Option.some_or⟩

/-- **A node is the parent of its children**, and of nothing else. -/
theorem parent?_eq_some_iff {h p : Handle} {f : Forest Node} (hf : f.handles.Nodup) :
    f.parent? h = some p ↔ ∃ t, f.find? p = some t ∧ h ∈ t.children.rootHandles := by
  induction f with
  | nil => simp [parent?, find?]
  | cons a below beside ih₁ ih₂ =>
    obtain ⟨ha, ha', hbelow, hbeside, hdisjoint⟩ := nodup_handles_cons.1 hf
    rw [parent?]
    by_cases hr : h ∈ below.rootHandles
    · -- a child of the first root
      rw [if_pos hr, Option.some_inj]
      constructor
      · rintro rfl
        exact ⟨⟨a, below⟩, by rw [find?, if_pos rfl], hr⟩
      · rintro ⟨t, ht, hh⟩
        unfold find? at ht
        split at ht
        · next hap => exact hap
        · rcases Option.or_eq_some_iff.1 ht with ht | ⟨-, ht⟩
          · have := (ih₁ hbelow).2 ⟨t, ht, hh⟩
            rw [parent?_of_rootHandles hbelow hr] at this
            cases this
          · have hmem := mem_handles_of_parent? ((ih₂ hbeside).2 ⟨t, ht, hh⟩)
            exact absurd hmem (hdisjoint h (mem_handles_of_rootHandles hr))
    · rw [if_neg hr, Option.or_eq_some_iff, ih₁ hbelow, ih₂ hbeside]
      constructor
      · rintro (⟨t, ht, hh⟩ | ⟨-, t, ht, hh⟩)
        · have hp := mem_handles_of_find? ht
          exact ⟨t, by rw [find?_cons_of_ne fun e => ha (e ▸ hp), ht, Option.some_or], hh⟩
        · have hp := mem_handles_of_find? ht
          have hno : below.find? p = none :=
            find?_eq_none_iff.2 fun hb => hdisjoint p hb hp
          exact ⟨t, by rw [find?_cons_of_ne fun e => ha' (e ▸ hp), hno, Option.none_or, ht], hh⟩
      · rintro ⟨t, ht, hh⟩
        unfold find? at ht
        split at ht
        · obtain rfl := Option.some.inj ht
          exact absurd hh hr
        · rcases Option.or_eq_some_iff.1 ht with ht | ⟨-, ht⟩
          · exact .inl ⟨t, ht, hh⟩
          · have hmem := mem_handles_of_parent? ((ih₂ hbeside).2 ⟨t, ht, hh⟩)
            exact .inr ⟨parent?_of_not_mem fun hb => hdisjoint h hb hmem, t, ht, hh⟩

theorem mem_handles_parent {h p : Handle} {f : Forest Node} (hf : f.handles.Nodup)
    (hp : f.parent? h = some p) : p ∈ f.handles :=
  have ⟨_, ht, _⟩ := (parent?_eq_some_iff hf).1 hp
  mem_handles_of_find? ht

/-- **A parent comes before its children** in document order. -/
theorem idxOf_lt_of_parent? {h p : Handle} {f : Forest Node} (hf : f.handles.Nodup)
    (hp : f.parent? h = some p) : f.handles.idxOf p < f.handles.idxOf h := by
  induction f with
  | nil => cases hp
  | cons a below beside ih₁ ih₂ =>
    obtain ⟨ha, ha', hbelow, hbeside, hdisjoint⟩ := nodup_handles_cons.1 hf
    have hskip : ∀ {x : Handle}, a.handle ≠ x → (cons a below beside).handles.idxOf x =
        (below.handles ++ beside.handles).idxOf x + 1 := by
      intro x hx
      rw [handles_cons, List.idxOf_cons_ne _ hx]
    rw [parent?] at hp
    split at hp
    · next hr =>
      obtain rfl := Option.some.inj hp
      have hne : a.handle ≠ h := fun e => ha (e ▸ mem_handles_of_rootHandles hr)
      rw [hskip hne, handles_cons, List.idxOf_cons_self]
      exact Nat.succ_pos _
    · rcases Option.or_eq_some_iff.1 hp with hp | ⟨hno, hp⟩
      · have hh := mem_handles_of_parent? hp
        have hpm := mem_handles_parent hbelow hp
        rw [hskip fun e => ha (e ▸ hh), hskip fun e => ha (e ▸ hpm),
          List.idxOf_append_of_mem hh, List.idxOf_append_of_mem hpm]
        exact Nat.succ_lt_succ (ih₁ hbelow hp)
      · have hh := mem_handles_of_parent? hp
        have hpm := mem_handles_parent hbeside hp
        rw [hskip fun e => ha' (e ▸ hh), hskip fun e => ha' (e ▸ hpm),
          List.idxOf_append_of_notMem fun hb => hdisjoint h hb hh,
          List.idxOf_append_of_notMem fun hb => hdisjoint p hb hpm]
        exact Nat.succ_lt_succ (Nat.add_lt_add_left (ih₂ hbeside hp) _)

/-! ## Places -/

theorem places?_of_not_mem {h : Handle} (skipped : Nat) {f : Forest Node} (hf : h ∉ f.handles) :
    f.places? h skipped = none := by
  induction f generalizing skipped with
  | nil => rfl
  | cons a below beside ih₁ ih₂ =>
    rw [handles_cons, List.mem_cons, List.mem_append, not_or, not_or] at hf
    obtain ⟨ha, hbelow, hbeside⟩ := hf
    rw [places?, if_neg fun e => ha e.symm, ih₁ 0 hbelow, ih₂ (skipped + 1) hbeside]
    rfl

theorem places?_cons_below {h : Handle} (skipped : Nat) {a : Node} {below beside : Forest Node}
    (hf : (cons a below beside).handles.Nodup) (hh : h ∈ below.handles) :
    (cons a below beside).places? h skipped = (below.places? h 0).map (skipped :: ·) := by
  obtain ⟨ha, -, -, -, hdisjoint⟩ := nodup_handles_cons.1 hf
  have hne : a.handle ≠ h := fun e => ha (e ▸ hh)
  rw [places?, if_neg hne, places?_of_not_mem _ (hdisjoint h hh), Option.or_none]

theorem places?_cons_beside {h : Handle} (skipped : Nat) {a : Node} {below beside : Forest Node}
    (hf : (cons a below beside).handles.Nodup) (hh : h ∈ beside.handles) :
    (cons a below beside).places? h skipped = beside.places? h (skipped + 1) := by
  obtain ⟨-, ha, -, -, hdisjoint⟩ := nodup_handles_cons.1 hf
  have hne : a.handle ≠ h := fun e => ha (e ▸ hh)
  rw [places?, if_neg hne, places?_of_not_mem _ fun hb => hdisjoint h hb hh]
  rfl

/-- The place of a root is the number of trees before it. -/
theorem places?_of_rootHandles {h : Handle} (skipped : Nat) {f : Forest Node}
    (hf : f.handles.Nodup) (hh : h ∈ f.rootHandles) :
    f.places? h skipped = (f.rootHandles.idxOf? h).map fun i => [skipped + i] := by
  induction f generalizing skipped with
  | nil => exact absurd hh List.not_mem_nil
  | cons a below beside _ ih =>
    rw [rootHandles_cons, List.idxOf?_cons]
    by_cases ha : a.handle = h
    · rw [places?, if_pos ha, if_pos (by simpa using ha)]
      rfl
    · have hbeside : h ∈ beside.rootHandles := (List.mem_cons.1 hh).resolve_left fun e => ha e.symm
      rw [places?_cons_beside skipped hf (mem_handles_of_rootHandles hbeside),
        ih (skipped + 1) (nodup_handles_cons.1 hf).2.2.2.1 hbeside, if_neg (by simpa using ha),
        Option.map_map]
      refine Option.map_congr ?_
      intro i _
      rw [Function.comp_apply, Nat.add_right_comm, Nat.add_assoc]

/-- The places of a node are those of its parent, and its place among the children. -/
theorem places?_of_parent? {h p : Handle} (skipped : Nat) {f : Forest Node}
    (hf : f.handles.Nodup) {t : Tree Node} (ht : f.find? p = some t)
    (hh : h ∈ t.children.rootHandles) :
    f.places? h skipped =
      (f.places? p skipped).bind fun places =>
        (t.children.rootHandles.idxOf? h).map fun i => places ++ [i] := by
  induction f generalizing skipped with
  | nil => cases ht
  | cons a below beside ih₁ ih₂ =>
    obtain ⟨ha, ha', hbelow, hbeside, hdisjoint⟩ := nodup_handles_cons.1 hf
    unfold find? at ht
    split at ht
    · next hap =>
      obtain rfl := Option.some.inj ht
      subst hap
      have hmem := mem_handles_of_rootHandles hh
      rw [places?_cons_below skipped hf hmem, places?_of_rootHandles 0 hbelow hh, places?,
        if_pos rfl, Option.bind_some, Option.map_map]
      refine Option.map_congr ?_
      intro i _
      rw [Function.comp_apply, Nat.zero_add]
      rfl
    · rcases Option.or_eq_some_iff.1 ht with ht | ⟨-, ht⟩
      · have hpm := mem_handles_of_find? ht
        have hmem := mem_handles_of_parent? ((parent?_eq_some_iff hbelow).2 ⟨t, ht, hh⟩)
        rw [places?_cons_below skipped hf hmem, places?_cons_below skipped hf hpm,
          ih₁ 0 hbelow ht]
        cases below.places? p 0 with
        | none => rfl
        | some places =>
          rw [Option.bind_some, Option.map_some, Option.bind_some, Option.map_map]
          rfl
      · have hpm := mem_handles_of_find? ht
        have hmem := mem_handles_of_parent? ((parent?_eq_some_iff hbeside).2 ⟨t, ht, hh⟩)
        rw [places?_cons_beside skipped hf hmem, places?_cons_beside skipped hf hpm,
          ih₂ (skipped + 1) hbeside ht]

end Forest

namespace Document

/-! ## Parents and children in a document -/

/-- The node `p` is the parent of `c`. -/
def IsParent (d : Document) (p c : Handle) : Prop :=
  d.parent? c = some p

theorem contains_iff {d : Document} {h : Handle} : d.contains h = true ↔ h ∈ d.forest.handles := by
  unfold contains tree?
  rw [← Decidable.not_not (p := h ∈ d.forest.handles), ← Forest.find?_eq_none_iff]
  cases d.forest.find? h <;> simp

theorem children_of_tree? {d : Document} {p : Handle} {t : Tree Node} (ht : d.tree? p = some t) :
    d.children p = t.children.rootHandles := by
  rw [children, ht]
  rfl

theorem mem_children_iff {d : Document} {p c : Handle} :
    c ∈ d.children p ↔ ∃ t, d.tree? p = some t ∧ c ∈ t.children.rootHandles := by
  unfold children
  cases d.tree? p <;> simp

/-- **A node is the parent of its children**, and of nothing else. -/
theorem WellFormed.parent?_eq_some_iff {d : Document} (hd : d.WellFormed) {p c : Handle} :
    d.parent? c = some p ↔ c ∈ d.children p := by
  rw [mem_children_iff]
  exact Forest.parent?_eq_some_iff hd.nodup

theorem WellFormed.nodup_children {d : Document} (hd : d.WellFormed) (p : Handle) :
    (d.children p).Nodup := by
  cases ht : d.tree? p with
  | none =>
    rw [children, ht]
    exact List.nodup_nil
  | some t =>
    rw [children_of_tree? ht]
    have hbelow : t.children.handles.Sublist t.handles := List.sublist_cons_self _ _
    exact (nodup_handles_of_tree? hd ht).sublist
      ((Forest.rootHandles_sublist t.children).trans hbelow)

theorem WellFormed.contains_of_isParent {d : Document} (hd : d.WellFormed) {p c : Handle}
    (h : d.IsParent p c) : d.contains p = true ∧ d.contains c = true :=
  ⟨contains_iff.2 (Forest.mem_handles_parent hd.nodup h),
    contains_iff.2 (Forest.mem_handles_of_parent? h)⟩

/-- A child is found with the tree that stands under the parent. -/
theorem WellFormed.tree?_of_mem_trees {d : Document} (hd : d.WellFormed) {h : Handle}
    {t s : Tree Node} (ht : d.tree? h = some t) (hs : s ∈ t.children.trees) :
    d.tree? s.label.handle = some s := by
  obtain ⟨place, hplace⟩ := List.mem_iff_getElem?.1 hs
  have hat : t.at? [place] = some s := by
    rw [Tree.at?_cons, Forest.tree?_eq_getElem?, hplace]
    rfl
  exact Forest.find?_of_at? hd.nodup ht hat

/-- **The trees of the children** are those under the parent. -/
theorem WellFormed.map_shape?_children {d : Document} (hd : d.WellFormed) {h : Handle}
    {a : Content} {f : Forest Content} (hf : d.shape? h = some ⟨a, f⟩) :
    (d.children h).map d.shape? = f.trees.map some := by
  obtain ⟨n, hn, hshape⟩ := Option.map_eq_some_iff.1 hf
  obtain rfl : n.children.contents = f := congrArg Tree.children hshape
  have hfind : ∀ s ∈ n.children.trees, d.shape? s.label.handle = some (s.map Node.content) := by
    intro s hs
    rw [shape?, hd.tree?_of_mem_trees hn hs]
    rfl
  rw [children_of_tree? hn, Forest.rootHandles, Forest.roots, Forest.contents, Forest.trees_map,
    List.map_map, List.map_map, List.map_map]
  exact List.map_congr_left hfind

/-- Walking up from a node ends: a parent comes earlier in document order. -/
theorem WellFormed.wellFounded_isParent {d : Document} (hd : d.WellFormed) :
    WellFounded d.IsParent :=
  Subrelation.wf (fun h => Forest.idxOf_lt_of_parent? hd.nodup h)
    (measure fun h => d.forest.handles.idxOf h).wf

/-- **No node is its own ancestor.** -/
theorem WellFormed.not_ancestor_self {d : Document} (hd : d.WellFormed) (h : Handle) :
    ¬Relation.TransGen d.IsParent h h :=
  hd.wellFounded_isParent.transGen.irrefl.irrefl h

/-! ## The way up to a root -/

/-- The address of `h` found on the way up to `root`, with `path` below `h`: at most `rounds` nodes
are visited, and there is no answer if they are not enough. The answer is that there is no address
if the way up ends elsewhere. -/
def climb (d : Document) (root : Handle) :
    (rounds : Nat) → (h : Handle) → (path : List Nat) → Option (Option Address)
  | 0, _, _ => none
  | rounds + 1, h, path =>
    if h = root then some (some ⟨path⟩)
    else match d.parent? h, d.position? h with
      | some p, some place => d.climb root rounds p (place :: path)
      | _, _ => some none

/-- What stands under a node are its children, and what stands under another node under it. -/
theorem WellFormed.mem_below_iff {d : Document} (hd : d.WellFormed) {root p h : Handle}
    {t : Tree Node} (ht : d.tree? root = some t) (hp : d.parent? h = some p) :
    h ∈ t.children.handles ↔ p = root ∨ p ∈ t.children.handles := by
  have hnodup := (List.nodup_cons.1 (nodup_handles_of_tree? hd ht)).2
  obtain ⟨s, hs, hr⟩ := mem_children_iff.1 (hd.parent?_eq_some_iff.1 hp)
  constructor
  · intro hm
    rcases Forest.mem_rootHandles_or_parent? hm with hr' | ⟨q, hq⟩
    · have hroot := hd.parent?_eq_some_iff.2 (mem_children_iff.2 ⟨t, ht, hr'⟩)
      exact .inl (Option.some.inj (hp.symm.trans hroot))
    · obtain ⟨u, hu, hr'⟩ := (Forest.parent?_eq_some_iff hnodup).1 hq
      have hfind : d.tree? q = some u := Forest.find?_of_find? hd.nodup ht hu
      have hparent := hd.parent?_eq_some_iff.2 (mem_children_iff.2 ⟨u, hfind, hr'⟩)
      obtain rfl := Option.some.inj (hp.symm.trans hparent)
      exact .inr (Forest.mem_handles_of_find? hu)
  · rintro (rfl | hm)
    · obtain rfl := Option.some.inj (ht.symm.trans hs)
      exact Forest.mem_handles_of_rootHandles hr
    · obtain ⟨u, hu⟩ := Option.ne_none_iff_exists'.1 fun hn => Forest.find?_eq_none_iff.1 hn hm
      obtain rfl := Option.some.inj ((Forest.find?_of_find? hd.nodup ht hu).symm.trans hs)
      exact Forest.mem_handles_of_parent? ((Forest.parent?_eq_some_iff hnodup).2 ⟨u, hu, hr⟩)

/-- A node without a parent stands under no other. -/
theorem WellFormed.not_mem_below {d : Document} (hd : d.WellFormed) {root h : Handle}
    {t : Tree Node} (ht : d.tree? root = some t) (hp : d.parent? h = none) :
    h ∉ t.children.handles := by
  intro hm
  have hnodup := (List.nodup_cons.1 (nodup_handles_of_tree? hd ht)).2
  have hno : ∀ {q : Handle} {u : Tree Node}, d.tree? q = some u →
      h ∉ u.children.rootHandles := by
    intro q u hu hr
    have := hd.parent?_eq_some_iff.2 (mem_children_iff.2 ⟨u, hu, hr⟩)
    rw [hp] at this
    cases this
  rcases Forest.mem_rootHandles_or_parent? hm with hr | ⟨q, hq⟩
  · exact hno ht hr
  · obtain ⟨u, hu, hr⟩ := (Forest.parent?_eq_some_iff hnodup).1 hq
    exact hno (Forest.find?_of_find? hd.nodup ht hu) hr

theorem addressOf?_of_ne {d : Document} {root h : Handle} (hne : h ≠ root) :
    d.addressOf? root h =
      (d.tree? root).bind fun t => (t.children.places? h 0).map Address.mk := by
  rw [addressOf?, if_neg hne]
  cases d.tree? root with
  | none => rfl
  | some t => cases ht : t.children.places? h 0 <;> simp [ht]

/-- **The address of a node** is that of its parent with the place of the node at its end. -/
theorem WellFormed.addressOf?_eq {d : Document} (hd : d.WellFormed) {root h : Handle}
    (hne : h ≠ root) :
    d.addressOf? root h = (d.parent? h).bind fun p => (d.position? h).bind fun place =>
      (d.addressOf? root p).map fun a => ⟨a.places ++ [place]⟩ := by
  rw [addressOf?_of_ne hne]
  cases hp : d.parent? h with
  | none =>
    cases ht : d.tree? root with
    | none => rfl
    | some t => rw [Option.bind_some, Forest.places?_of_not_mem 0 (hd.not_mem_below ht hp)]; rfl
  | some p =>
    obtain ⟨s, hs, hr⟩ := mem_children_iff.1 (hd.parent?_eq_some_iff.1 hp)
    have hposition : d.position? h = s.children.rootHandles.idxOf? h := by
      rw [position?, hp, ← children_of_tree? hs]
      rfl
    rw [Option.bind_some, hposition]
    by_cases hroot : p = root
    · subst hroot
      have hnodup := (List.nodup_cons.1 (nodup_handles_of_tree? hd hs)).2
      rw [hs, Option.bind_some, Forest.places?_of_rootHandles 0 hnodup hr, addressOf?, if_pos rfl]
      cases s.children.rootHandles.idxOf? h with
      | none => rfl
      | some i => simp [Address.root]
    · rw [addressOf?_of_ne hroot]
      cases ht : d.tree? root with
      | none => cases s.children.rootHandles.idxOf? h <;> rfl
      | some t =>
        rw [Option.bind_some, Option.bind_some]
        by_cases hin : p ∈ t.children.handles
        · have hnodup := (List.nodup_cons.1 (nodup_handles_of_tree? hd ht)).2
          obtain ⟨u, hu⟩ := Option.ne_none_iff_exists'.1 fun hn => Forest.find?_eq_none_iff.1 hn hin
          obtain rfl := Option.some.inj ((Forest.find?_of_find? hd.nodup ht hu).symm.trans hs)
          rw [Forest.places?_of_parent? 0 hnodup hu hr]
          cases t.children.places? p 0 <;> cases u.children.rootHandles.idxOf? h <;> rfl
        · have hnot : h ∉ t.children.handles := fun hm =>
            ((hd.mem_below_iff ht hp).1 hm).elim hroot hin
          rw [Forest.places?_of_not_mem 0 hnot, Forest.places?_of_not_mem 0 hin]
          cases s.children.rootHandles.idxOf? h <;> rfl

/-- **Walking up to the root finds the address.** A node comes after all that stand above it, so the
nodes up to it in document order are rounds enough. -/
theorem WellFormed.climb_eq {d : Document} (hd : d.WellFormed) (root : Handle) {rounds : Nat}
    {h : Handle} (hr : d.contains h = true → d.forest.handles.idxOf h < rounds) (hpos : 0 < rounds)
    (path : List Nat) :
    d.climb root rounds h path =
      some ((d.addressOf? root h).map fun a => ⟨a.places ++ path⟩) := by
  induction rounds generalizing h path with
  | zero => exact absurd hpos (Nat.lt_irrefl 0)
  | succ rounds ih =>
    rw [climb]
    by_cases hh : h = root
    · rw [if_pos hh, addressOf?, if_pos hh]
      rfl
    · rw [if_neg hh, hd.addressOf?_eq hh]
      cases hp : d.parent? h with
      | none => rfl
      | some p =>
        cases hplace : d.position? h with
        | none => rfl
        | some place =>
          have hlt := Forest.idxOf_lt_of_parent? hd.nodup hp
          have hidx := hr (hd.contains_of_isParent hp).2
          have hrounds : d.forest.handles.idxOf p < rounds := by omega
          simp only
          rw [ih (fun _ => hrounds) (Nat.zero_lt_of_lt hrounds), Option.bind_some,
            Option.bind_some, Option.map_map]
          refine congrArg some (Option.map_congr ?_)
          intro a _
          simp

end Document

end MarkupTemplate
