import MarkupTemplate.Document.Edit

/-!
# Nodes by place and by handle

A node can be named by the places that lead to it or by its handle. Where no handle is there
twice, both names stand for the same tree, and a change made through a handle is the change made
at the place.

Results:
* `Tree.resolve_eq_ok_iff`: an address resolves to the tree that its places lead to.
* `Tree.ext_label?`: a tree is made up of the labels at its places.
* `Forest.find?_of_at?`: the tree at a place is found again by the handle of its root.
* `Tree.places_inj`: a node has one place.
* `Forest.find?_relabel`: writing to a node moves none.
* `Tree.contents_relabel`: writing through a handle is writing at the place of its node.
-/

namespace MarkupTemplate

universe u v

variable {α : Type u} {β : Type v}

/-! ## Places -/

namespace Tree

/-- The tree that the places lead to. -/
def at? : Tree α → List Nat → Option (Tree α)
  | t, [] => some t
  | t, place :: places => (t.children.tree? place).bind fun child => child.at? places

@[simp] theorem at?_nil (t : Tree α) : t.at? [] = some t := rfl

theorem at?_cons (t : Tree α) (place : Nat) (places : List Nat) :
    t.at? (place :: places) = (t.children.tree? place).bind fun child => child.at? places := rfl

theorem follow_eq_ok_iff {t s : Tree α} {places : List Nat} {depth : Nat} :
    t.follow places depth = .ok s ↔ t.at? places = some s := by
  induction places generalizing t depth with
  | nil => simp [follow]
  | cons place places ih =>
    unfold follow
    rw [at?_cons]
    cases t.children.tree? place with
    | none => simp
    | some child => exact ih

theorem resolve_eq_ok_iff {t s : Tree α} {a : Address} :
    t.resolve a = .ok s ↔ t.at? a.places = some s := by
  have hfollow : t.follow a.places 0 = .ok s ↔ t.at? a.places = some s := follow_eq_ok_iff
  rw [← hfollow, resolve]
  split <;> simp [*]

end Tree

theorem Forest.tree?_map (h : α → β) (f : Forest α) (i : Nat) :
    (f.map h).tree? i = (f.tree? i).map (Tree.map h) := by
  induction f generalizing i with
  | nil => rfl
  | cons a below beside _ ih =>
    cases i with
    | zero => rfl
    | succ i => exact ih i

theorem Tree.at?_map (h : α → β) (t : Tree α) (places : List Nat) :
    (t.map h).at? places = (t.at? places).map (Tree.map h) := by
  induction places generalizing t with
  | nil => rfl
  | cons place places ih =>
    rw [at?_cons, at?_cons, Tree.map, Forest.tree?_map]
    cases t.children.tree? place with
    | none => rfl
    | some child => exact ih child

/-! ## Changing a label at a place -/

/-- The forest with the label changed by `g` that the places lead to. -/
def Forest.relabelAt (g : α → α) : List Nat → Forest α → Forest α
  | _, nil => nil
  | [], f => f
  | [0], cons a below beside => cons (g a) below beside
  | 0 :: place :: places, cons a below beside =>
    cons a (below.relabelAt g (place :: places)) beside
  | (i + 1) :: places, cons a below beside => cons a below (beside.relabelAt g (i :: places))

/-- The tree with the label changed by `g` that the places lead to. -/
def Tree.relabelAt (g : α → α) : List Nat → Tree α → Tree α
  | [], t => { t with label := g t.label }
  | place :: places, t => { t with children := t.children.relabelAt g (place :: places) }

namespace Forest

@[simp] theorem relabelAt_zero (g : α → α) (places : List Nat) (a : α) (below beside : Forest α) :
    (cons a below beside).relabelAt g (0 :: places) =
      cons ((Tree.mk a below).relabelAt g places).label
        ((Tree.mk a below).relabelAt g places).children beside := by
  cases places <;> rfl

@[simp] theorem relabelAt_succ (g : α → α) (i : Nat) (places : List Nat) (a : α)
    (below beside : Forest α) :
    (cons a below beside).relabelAt g ((i + 1) :: places) =
      cons a below (beside.relabelAt g (i :: places)) := rfl

/-- A place beyond the trees of `f` is one among those after them. -/
theorem relabelAt_append (g : α → α) (f h : Forest α) (places : List Nat) (i : Nat) :
    (f ++ h).relabelAt g ((f.width + i) :: places) = f ++ h.relabelAt g (i :: places) := by
  induction f with
  | nil => simp [width]
  | cons a below beside _ ih =>
    unfold width
    rw [Nat.add_right_comm, cons_append, relabelAt_succ, ih, cons_append]

end Forest

/-! ## A tree is its labels at their places -/

/-- What stands at the places. -/
def Tree.label? (t : Tree α) (places : List Nat) : Option α :=
  (t.at? places).map Tree.label

theorem Tree.label?_cons (t : Tree α) (place : Nat) (places : List Nat) :
    t.label? (place :: places) = (t.children.tree? place).bind fun s => s.label? places := by
  unfold label?
  rw [at?_cons, Option.map_bind]
  rfl

theorem Tree.label?_map (h : α → β) (t : Tree α) (places : List Nat) :
    (t.map h).label? places = (t.label? places).map h := by
  rw [label?, at?_map, label?, Option.map_map, Option.map_map]
  rfl

theorem Forest.tree?_relabelAt (g : α → α) (f : Forest α) (i : Nat) (places : List Nat) (j : Nat) :
    (f.relabelAt g (i :: places)).tree? j =
      if j = i then (f.tree? j).map (Tree.relabelAt g places) else f.tree? j := by
  induction f generalizing i j with
  | nil => cases j <;> simp [relabelAt, tree?]
  | cons a below beside _ ih =>
    cases i with
    | zero => cases j <;> simp [tree?]
    | succ i =>
      cases j with
      | zero => simp [tree?]
      | succ j => simpa [tree?] using ih i j

/-- A change at some places leaves the labels at all others. -/
theorem Tree.label?_relabelAt (g : α → α) (t : Tree α) (places others : List Nat) :
    (t.relabelAt g places).label? others =
      if others = places then (t.label? others).map g else t.label? others := by
  induction places generalizing t others with
  | nil => cases others <;> rfl
  | cons place places ih =>
    cases others with
    | nil => rfl
    | cons other others =>
      rw [label?_cons, label?_cons, relabelAt, Forest.tree?_relabelAt]
      by_cases h : other = place
      · subst h
        cases t.children.tree? other with
        | none => simp
        | some s => simpa using ih s others
      · simp [h]

theorem Forest.ext_label? {f g : Forest α}
    (h : ∀ i places, ((f.tree? i).bind fun t => t.label? places) =
      (g.tree? i).bind fun t => t.label? places) : f = g := by
  induction f generalizing g with
  | nil =>
    cases g with
    | nil => rfl
    | cons a below beside => exact absurd (h 0 []) (by simp [tree?, Tree.label?])
  | cons a below beside ih₁ ih₂ =>
    cases g with
    | nil => exact absurd (h 0 []) (by simp [tree?, Tree.label?])
    | cons b below' beside' =>
      have hlabel : a = b := Option.some.inj (h 0 [])
      have hbelow : below = below' := ih₁ fun i places => by
        have := h 0 (i :: places)
        simpa [tree?, Tree.label?_cons] using this
      have hbeside : beside = beside' := ih₂ fun i places => h (i + 1) places
      rw [hlabel, hbelow, hbeside]

/-- **A tree is its labels at their places.** -/
theorem Tree.ext_label? {t s : Tree α} (h : ∀ places, t.label? places = s.label? places) :
    t = s := by
  obtain ⟨a, f⟩ := t
  obtain ⟨b, g⟩ := s
  have hlabel : a = b := Option.some.inj (h [])
  have hchildren : f = g := Forest.ext_label? fun i places => by
    have := h (i :: places)
    rwa [label?_cons, label?_cons] at this
  rw [hlabel, hchildren]

/-! ## Finding by handle -/

/-- The handles of a tree in document order, its root's first. -/
def Tree.handles (t : Tree Node) : List Handle :=
  t.labels.map Node.handle

/-- What the nodes of a tree are, without their handles. -/
def Tree.contents (t : Tree Node) : Tree Content :=
  t.map Node.content

/-- The tree with what `h` is changed by `g`. -/
def Tree.relabel (h : Handle) (g : Content → Content) (t : Tree Node) : Tree Node :=
  ⟨if t.label.handle = h then { t.label with content := g t.label.content } else t.label,
    t.children.relabel h g⟩

@[simp] theorem Tree.handles_mk (a : Node) (below : Forest Node) :
    (Tree.mk a below).handles = a.handle :: below.handles := rfl

@[simp] theorem Tree.handles_toForest (t : Tree Node) : t.toForest.handles = t.handles := by
  rw [toForest, Forest.handles_cons, Forest.handles_nil, List.append_nil]
  rfl

@[simp] theorem Tree.label_handle_relabel (h : Handle) (g : Content → Content) (t : Tree Node) :
    (t.relabel h g).label.handle = t.label.handle := by
  simp only [Tree.relabel]
  split <;> rfl

namespace Forest

theorem find?_eq_none_iff {h : Handle} {f : Forest Node} : f.find? h = none ↔ h ∉ f.handles := by
  induction f with
  | nil => simp [find?]
  | cons a below beside ih₁ ih₂ =>
    by_cases ha : a.handle = h
    · simp [find?, ha]
    · have hne : ¬h = a.handle := fun e => ha e.symm
      simp [find?, ha, hne, ih₁, ih₂]

theorem mem_handles_of_find? {h : Handle} {f : Forest Node} {t : Tree Node}
    (ht : f.find? h = some t) : h ∈ f.handles :=
  Decidable.not_not.1 fun hn => by rw [find?_eq_none_iff.2 hn] at ht; cases ht

theorem nodup_handles_cons {a : Node} {below beside : Forest Node} :
    (cons a below beside).handles.Nodup ↔
      a.handle ∉ below.handles ∧ a.handle ∉ beside.handles ∧ below.handles.Nodup ∧
        beside.handles.Nodup ∧ ∀ h ∈ below.handles, h ∉ beside.handles := by
  rw [handles_cons, List.nodup_cons, List.nodup_append, List.mem_append, not_or, and_assoc]
  refine and_congr_right fun _ => and_congr_right fun _ => and_congr_right fun _ =>
    and_congr_right fun _ => ⟨fun hd h hb hs => hd h hb h hs rfl, ?_⟩
  rintro hd x hx y hy rfl
  exact hd x hx hy

theorem find?_append (h : Handle) (f g : Forest Node) :
    (f ++ g).find? h = (f.find? h).or (g.find? h) := by
  induction f with
  | nil => simp [find?]
  | cons a below beside _ ih =>
    by_cases ha : a.handle = h
    · simp [find?, ha]
    · simp [find?, ha, ih, Option.or_assoc]

theorem find?_cons_of_ne {a : Node} {h : Handle} (ha : a.handle ≠ h) (below beside : Forest Node) :
    (cons a below beside).find? h = (below.find? h).or (beside.find? h) := by
  rw [find?, if_neg ha]

theorem handle_of_find? {h : Handle} {f : Forest Node} {t : Tree Node}
    (ht : f.find? h = some t) : t.label.handle = h := by
  induction f with
  | nil => cases ht
  | cons a below beside ih₁ ih₂ =>
    unfold find? at ht
    split at ht
    · next ha => exact Option.some.inj ht ▸ ha
    · rcases Option.or_eq_some_iff.1 ht with ht | ⟨-, ht⟩
      · exact ih₁ ht
      · exact ih₂ ht

/-- The tree that is found is a part of the forest. -/
theorem labels_sublist_of_find? {h : Handle} {f : Forest Node} {t : Tree Node}
    (ht : f.find? h = some t) : t.labels.Sublist f.labels := by
  induction f with
  | nil => cases ht
  | cons a below beside ih₁ ih₂ =>
    rw [labels]
    unfold find? at ht
    split at ht
    · obtain rfl := Option.some.inj ht
      exact (List.sublist_append_left _ _).cons_cons _
    · rcases Option.or_eq_some_iff.1 ht with ht | ⟨-, ht⟩
      · exact ((ih₁ ht).trans (List.sublist_append_left _ _)).cons _
      · exact ((ih₂ ht).trans (List.sublist_append_right _ _)).cons _

theorem handles_sublist_of_find? {h : Handle} {f : Forest Node} {t : Tree Node}
    (ht : f.find? h = some t) : t.handles.Sublist f.handles :=
  (labels_sublist_of_find? ht).map Node.handle

/-- **A handle names one node** where no handle is there twice. -/
theorem label_of_find? {f : Forest Node} (hf : f.handles.Nodup) {n : Node} (hn : n ∈ f.labels) :
    (f.find? n.handle).map Tree.label = some n := by
  induction f with
  | nil => cases hn
  | cons a below beside ih₁ ih₂ =>
    obtain ⟨ha, ha', hbelow, hbeside, hdisjoint⟩ := nodup_handles_cons.1 hf
    rw [labels, List.mem_cons, List.mem_append] at hn
    rcases hn with rfl | hn | hn
    · rw [find?, if_pos rfl, Option.map_some]
    · have hmem : n.handle ∈ below.handles := List.mem_map_of_mem hn
      rw [find?_cons_of_ne fun e => ha (e ▸ hmem), Option.map_or, ih₁ hbelow hn, Option.some_or]
    · have hmem : n.handle ∈ beside.handles := List.mem_map_of_mem hn
      have hnone : below.find? n.handle = none :=
        find?_eq_none_iff.2 fun hm => hdisjoint _ hm hmem
      rw [find?_cons_of_ne fun e => ha' (e ▸ hmem), hnone, Option.none_or, ih₂ hbeside hn]

/-- A child is found in the forest below its parent. -/
theorem find?_of_tree? {f : Forest Node} (hf : f.handles.Nodup) {i : Nat} {t : Tree Node}
    (ht : f.tree? i = some t) : f.find? t.label.handle = some t := by
  induction f generalizing i with
  | nil => cases ht
  | cons a below beside _ ih =>
    obtain ⟨-, ha, -, hbeside, hdisj⟩ := nodup_handles_cons.1 hf
    cases i with
    | zero =>
      obtain rfl := Option.some.inj ht
      simp [find?]
    | succ i =>
      have hfind : beside.find? t.label.handle = some t := ih hbeside ht
      have hmem : t.label.handle ∈ beside.handles := mem_handles_of_find? hfind
      have hbelow : below.find? t.label.handle = none :=
        find?_eq_none_iff.2 fun hb => hdisj _ hb hmem
      rw [find?_cons_of_ne fun e => ha (e ▸ hmem), hbelow, Option.none_or, hfind]

/-- A tree that is found in a part of the forest is found in the forest. -/
theorem find?_of_find? {f : Forest Node} (hf : f.handles.Nodup) {r h : Handle} {t s : Tree Node}
    (ht : f.find? r = some t) (hs : t.children.find? h = some s) : f.find? h = some s := by
  induction f with
  | nil => cases ht
  | cons a below beside ih₁ ih₂ =>
    obtain ⟨ha₁, ha₂, hbelow, hbeside, hdisj⟩ := nodup_handles_cons.1 hf
    unfold find? at ht
    split at ht
    · obtain rfl := Option.some.inj ht
      rw [find?_cons_of_ne fun e => ha₁ (e ▸ mem_handles_of_find? hs), hs, Option.some_or]
    · rcases Option.or_eq_some_iff.1 ht with ht | ⟨-, ht⟩
      · have hb := ih₁ hbelow ht
        rw [find?_cons_of_ne fun e => ha₁ (e ▸ mem_handles_of_find? hb), hb, Option.some_or]
      · have hb := ih₂ hbeside ht
        have hnone : below.find? h = none :=
          find?_eq_none_iff.2 fun hx => hdisj _ hx (mem_handles_of_find? hb)
        rw [find?_cons_of_ne fun e => ha₂ (e ▸ mem_handles_of_find? hb), hnone, Option.none_or, hb]

/-- The node of a tree is one of the forest. -/
theorem mem_handles_of_tree? {f : Forest Node} (hf : f.handles.Nodup) {i : Nat} {t : Tree Node}
    (ht : f.tree? i = some t) {h : Handle} (hh : h ∈ t.handles) : h ∈ f.handles :=
  (handles_sublist_of_find? (find?_of_tree? hf ht)).subset hh

/-- Trees side by side have no handle in common. -/
theorem eq_of_mem_handles {f : Forest Node} (hf : f.handles.Nodup) {i j : Nat} {t s : Tree Node}
    (ht : f.tree? i = some t) (hs : f.tree? j = some s) {h : Handle} (hi : h ∈ t.handles)
    (hj : h ∈ s.handles) : i = j := by
  induction f generalizing i j with
  | nil => cases ht
  | cons a below beside _ ih =>
    obtain ⟨-, ha, -, hbeside, hdisjoint⟩ := nodup_handles_cons.1 hf
    -- a handle of the first tree is in none of the others
    have hfirst : h ∈ (Tree.mk a below).handles → h ∉ beside.handles := by
      intro hh
      rcases List.mem_cons.1 hh with rfl | hh
      · exact ha
      · exact hdisjoint h hh
    cases i with
    | zero =>
      obtain rfl := Option.some.inj ht
      cases j with
      | zero => rfl
      | succ j => exact absurd (mem_handles_of_tree? hbeside hs hj) (hfirst hi)
    | succ i =>
      cases j with
      | zero =>
        obtain rfl := Option.some.inj hs
        exact absurd (mem_handles_of_tree? hbeside ht hi) (hfirst hj)
      | succ j => exact congrArg (· + 1) (ih hbeside ht hs)

/-- **A place and a handle name the same tree** where no handle is there twice. -/
theorem find?_of_at? {f : Forest Node} (hf : f.handles.Nodup) {r : Handle} {t s : Tree Node}
    (ht : f.find? r = some t) {places : List Nat} (hs : t.at? places = some s) :
    f.find? s.label.handle = some s := by
  induction places generalizing r t with
  | nil =>
    obtain rfl := Option.some.inj hs
    rwa [handle_of_find? ht]
  | cons place places ih =>
    rw [Tree.at?_cons, Option.bind_eq_some_iff] at hs
    obtain ⟨child, hchild, hs⟩ := hs
    have hnodup : t.children.handles.Nodup :=
      (List.nodup_cons.1 (hf.sublist (handles_sublist_of_find? ht))).2
    exact ih (find?_of_find? hf ht (find?_of_tree? hnodup hchild)) hs

/-! ## Writing to a node -/

/-- Writing to a node moves none: what was found is still found, with the writing done in it. -/
theorem find?_relabel (r h : Handle) (g : Content → Content) (f : Forest Node) :
    (f.relabel h g).find? r = (f.find? r).map (Tree.relabel h g) := by
  induction f with
  | nil => rfl
  | cons a below beside ih₁ ih₂ =>
    have ha : (if a.handle = h then { a with content := g a.content } else a).handle =
        a.handle := by
      split <;> rfl
    unfold relabel
    rw [find?, find?, ha]
    split
    · rfl
    · rw [ih₁, ih₂]
      cases below.find? r <;> rfl

theorem relabel_cons_of_ne {a : Node} {h : Handle} (ha : a.handle ≠ h) (g : Content → Content)
    (below beside : Forest Node) :
    (cons a below beside).relabel h g = cons a (below.relabel h g) (beside.relabel h g) := by
  rw [relabel, if_neg ha]

/-- Writing changes nothing where there is no such node. -/
theorem relabel_of_not_mem {h : Handle} (g : Content → Content) {f : Forest Node}
    (hf : h ∉ f.handles) : f.relabel h g = f := by
  induction f with
  | nil => rfl
  | cons a below beside ih₁ ih₂ =>
    simp only [handles_cons, List.mem_cons, List.mem_append, not_or] at hf
    rw [relabel_cons_of_ne fun e => hf.1 e.symm, ih₁ hf.2.1, ih₂ hf.2.2]

/-- What is written matters at the node alone that is written to. -/
theorem relabel_congr {h : Handle} {g k : Content → Content} {f : Forest Node}
    (hf : f.handles.Nodup) {t : Tree Node} (ht : f.find? h = some t)
    (hg : g t.label.content = k t.label.content) : f.relabel h g = f.relabel h k := by
  induction f with
  | nil => cases ht
  | cons a below beside ih₁ ih₂ =>
    obtain ⟨ha₁, ha₂, hbelow, hbeside, hdisj⟩ := nodup_handles_cons.1 hf
    unfold find? at ht
    split at ht
    · next ha =>
      obtain rfl := Option.some.inj ht
      subst ha
      rw [relabel, relabel, relabel_of_not_mem g ha₁, relabel_of_not_mem k ha₁,
        relabel_of_not_mem g ha₂, relabel_of_not_mem k ha₂, if_pos rfl, if_pos rfl, hg]
    · next ha =>
      rw [relabel_cons_of_ne ha, relabel_cons_of_ne ha]
      rcases Option.or_eq_some_iff.1 ht with ht | ⟨-, ht⟩
      · have hbs : h ∉ beside.handles := hdisj _ (mem_handles_of_find? ht)
        rw [ih₁ hbelow ht, relabel_of_not_mem g hbs, relabel_of_not_mem k hbs]
      · have hbl : h ∉ below.handles := fun hb => hdisj _ hb (mem_handles_of_find? ht)
        rw [ih₂ hbeside ht, relabel_of_not_mem g hbl, relabel_of_not_mem k hbl]

theorem mem_handles_of_at? {f : Forest Node} (hf : f.handles.Nodup) {i : Nat} {t s : Tree Node}
    {places : List Nat} (ht : f.tree? i = some t) (hs : t.at? places = some s) :
    s.label.handle ∈ f.handles :=
  mem_handles_of_find? (find?_of_at? hf (find?_of_tree? hf ht) hs)

theorem contents_relabel {f : Forest Node} (hf : f.handles.Nodup) {i : Nat} {t s : Tree Node}
    {places : List Nat} (ht : f.tree? i = some t) (hs : t.at? places = some s)
    (g : Content → Content) :
    (f.relabel s.label.handle g).contents = f.contents.relabelAt g (i :: places) := by
  induction f generalizing i t places with
  | nil => cases ht
  | cons a below beside ih₁ ih₂ =>
    obtain ⟨ha₁, ha₂, hbelow, hbeside, hdisj⟩ := nodup_handles_cons.1 hf
    cases i with
    | zero =>
      obtain rfl := Option.some.inj ht
      cases places with
      | nil =>
        obtain rfl := Option.some.inj hs
        unfold relabel
        rw [if_pos rfl, relabel_of_not_mem g ha₁, relabel_of_not_mem g ha₂]
        rfl
      | cons place places =>
        obtain ⟨child, hchild, hs⟩ := Option.bind_eq_some_iff.1 hs
        have hmem := mem_handles_of_at? hbelow hchild hs
        have := ih₁ hbelow hchild hs
        rw [relabel_cons_of_ne fun e => ha₁ (e ▸ hmem), relabel_of_not_mem g (hdisj _ hmem)]
        simp only [contents, map] at this ⊢
        rw [this]
        rfl
    | succ i =>
      have hmem := mem_handles_of_at? hbeside ht hs
      have := ih₂ hbeside ht hs
      rw [relabel_cons_of_ne fun e => ha₂ (e ▸ hmem),
        relabel_of_not_mem g fun hb => hdisj _ hb hmem]
      simp only [contents, map] at this ⊢
      rw [this]
      rfl

end Forest

theorem Tree.mem_handles_of_at? {t s : Tree Node} (ht : t.handles.Nodup) {places : List Nat}
    (hs : t.at? places = some s) : s.label.handle ∈ t.handles := by
  cases places with
  | nil =>
    obtain rfl := Option.some.inj hs
    exact List.mem_cons_self
  | cons place places =>
    obtain ⟨child, hchild, hs⟩ := Option.bind_eq_some_iff.1 hs
    have hbelow : t.children.handles.Nodup := (List.nodup_cons.1 ht).2
    exact List.mem_cons_of_mem _ (Forest.mem_handles_of_at? hbelow hchild hs)

/-- **A node has one place** where no handle is there twice. -/
theorem Tree.places_inj {t s s' : Tree Node} (ht : t.handles.Nodup) {places places' : List Nat}
    (hs : t.at? places = some s) (hs' : t.at? places' = some s')
    (h : s.label.handle = s'.label.handle) : places = places' := by
  -- the root is not below itself
  have hroot : ∀ {t s : Tree Node} {place : Nat} {places : List Nat}, t.handles.Nodup →
      t.at? (place :: places) = some s → t.label.handle ≠ s.label.handle := by
    intro t s place places ht hs e
    obtain ⟨child, hchild, hs⟩ := Option.bind_eq_some_iff.1 hs
    obtain ⟨hnot, hbelow⟩ := List.nodup_cons.1 ht
    exact hnot (e ▸ Forest.mem_handles_of_at? hbelow hchild hs)
  induction places generalizing t places' with
  | nil =>
    obtain rfl := Option.some.inj hs
    cases places' with
    | nil => rfl
    | cons place' places' => exact absurd h (hroot ht hs')
  | cons place places ih =>
    cases places' with
    | nil =>
      obtain rfl := Option.some.inj hs'
      exact absurd h.symm (hroot ht hs)
    | cons place' places' =>
      obtain ⟨child, hchild, hs⟩ := Option.bind_eq_some_iff.1 hs
      obtain ⟨child', hchild', hs'⟩ := Option.bind_eq_some_iff.1 hs'
      have hbelow : t.children.handles.Nodup := (List.nodup_cons.1 ht).2
      have hnodup : ∀ {i : Nat} {c : Tree Node}, t.children.tree? i = some c → c.handles.Nodup :=
        fun hc => hbelow.sublist (Forest.handles_sublist_of_find? (Forest.find?_of_tree? hbelow hc))
      obtain rfl : place = place' := Forest.eq_of_mem_handles hbelow hchild hchild'
        (mem_handles_of_at? (hnodup hchild) hs)
        (h ▸ mem_handles_of_at? (hnodup hchild') hs')
      obtain rfl := Option.some.inj (hchild.symm.trans hchild')
      rw [ih (hnodup hchild) hs hs']

/-- **Writing through a handle is writing at the place** where no handle is there twice. -/
theorem Tree.contents_relabel {t s : Tree Node} (ht : t.handles.Nodup) {places : List Nat}
    (hs : t.at? places = some s) (g : Content → Content) :
    (t.relabel s.label.handle g).contents = t.contents.relabelAt g places := by
  obtain ⟨a, below⟩ := t
  obtain ⟨ha, hbelow⟩ := List.nodup_cons.1 ht
  cases places with
  | nil =>
    obtain rfl := Option.some.inj hs
    unfold relabel
    rw [if_pos rfl, Forest.relabel_of_not_mem g ha]
    rfl
  | cons place places =>
    obtain ⟨child, hchild, hs⟩ := Option.bind_eq_some_iff.1 hs
    have hmem := Forest.mem_handles_of_at? hbelow hchild hs
    have := Forest.contents_relabel hbelow hchild hs g
    have hne : a.handle ≠ s.label.handle := fun e => ha (e ▸ hmem)
    unfold relabel
    rw [if_neg hne]
    simp only [contents, map, relabelAt, Forest.contents] at this ⊢
    rw [this]

end MarkupTemplate
