import MarkupTemplate.Proofs.Document.Ancestry
import MarkupTemplate.Proofs.Document.Reachable

/-!
# Exchanging the children of a node

Whatever is done under one node is an exchange of its children for others, and all that is not under
that node stays as it is: what it is, where it stands, and what stands under it. Writing to nodes
under it is such an exchange, and so is moving new nodes there.

Results:
* `Forest.find?_reshape`, `Forest.parent?_reshape`: outside, trees are found where they were.
* `Forest.relabel_eq_reshape`: writing to a node exchanges the children of each node above it.
* `WellFormed.foldl_apply_forest`: so does an update whose nodes stand under one node.
* `Exchange.sameOutside`: an exchange leaves everything outside as it is.
* `Exchange.tree?_apart`: and so it leaves the trees that do not contain the node.
* `WellFormed.append_fragment`: appending a fragment adds its children and leaves it empty.
-/

namespace MarkupTemplate

namespace Forest

/-! ## Changing the children of a node -/

@[simp] theorem rootHandles_reshape (c : Handle) (g : Forest Node → Forest Node)
    (f : Forest Node) : (f.reshape c g).rootHandles = f.rootHandles := by
  induction f with
  | nil => rfl
  | cons a below beside _ ih =>
    unfold reshape
    split <;> rw [rootHandles_cons, rootHandles_cons, ih]

@[simp] theorem rootHandles_relabel (h : Handle) (g : Content → Content) (f : Forest Node) :
    (f.relabel h g).rootHandles = f.rootHandles := by
  induction f with
  | nil => rfl
  | cons a below beside _ ih =>
    unfold relabel
    rw [rootHandles_cons, rootHandles_cons, ih]
    split <;> rfl

@[simp] theorem reshape_id (c : Handle) (f : Forest Node) : f.reshape c id = f := by
  induction f with
  | nil => rfl
  | cons a below beside ih₁ ih₂ =>
    unfold reshape
    rw [ih₁, ih₂]
    split <;> rfl

theorem reshape_append (c : Handle) (g : Forest Node → Forest Node) (f f' : Forest Node) :
    (f ++ f').reshape c g = f.reshape c g ++ f'.reshape c g := by
  induction f with
  | nil => rfl
  | cons a below beside _ ih =>
    rw [cons_append, reshape, reshape, ih]
    split <;> rfl

/-- Two changes, one after the other, are one. -/
theorem reshape_reshape (c : Handle) (g k : Forest Node → Forest Node) (f : Forest Node) :
    (f.reshape c g).reshape c k = f.reshape c fun below => k (g below) := by
  induction f with
  | nil => rfl
  | cons a below beside ih₁ ih₂ =>
    by_cases ha : a.handle = c
    · simp only [reshape, if_pos ha, ih₂]
    · simp only [reshape, if_neg ha, ih₁, ih₂]

/-- What the children are changed to matters at the one node alone. -/
theorem reshape_congr {c : Handle} {g k : Forest Node → Forest Node} {f : Forest Node}
    (hf : f.handles.Nodup) {t : Tree Node} (ht : f.find? c = some t)
    (hg : g t.children = k t.children) : f.reshape c g = f.reshape c k := by
  induction f with
  | nil => cases ht
  | cons a below beside ih₁ ih₂ =>
    obtain ⟨-, ha, hbelow, hbeside, hdisjoint⟩ := nodup_handles_cons.1 hf
    by_cases hc : a.handle = c
    · subst hc
      rw [find?, if_pos rfl] at ht
      obtain rfl := Option.some.inj ht
      rw [reshape, reshape, if_pos rfl, if_pos rfl, reshape_of_not_mem g ha,
        reshape_of_not_mem k ha, hg]
    · rw [find?_cons_of_ne hc] at ht
      rw [reshape, reshape, if_neg hc, if_neg hc]
      rcases Option.or_eq_some_iff.1 ht with ht | ⟨hno, ht⟩
      · have hbs := hdisjoint c (mem_handles_of_find? ht)
        rw [ih₁ hbelow ht, reshape_of_not_mem g hbs, reshape_of_not_mem k hbs]
      · have hbl := find?_eq_none_iff.1 hno
        rw [ih₂ hbeside ht, reshape_of_not_mem g hbl, reshape_of_not_mem k hbl]

/-- **Writing to a node** exchanges the children of each node above it. -/
theorem relabel_eq_reshape {c h : Handle} (g : Content → Content) {f : Forest Node}
    (hf : f.handles.Nodup) {t : Tree Node} (ht : f.find? c = some t)
    (hh : h ∈ t.children.handles) : f.relabel h g = f.reshape c (relabel h g) := by
  -- so on the way down to `c` the node `h` is in the part that `c` is in
  have hmem : ∀ {f : Forest Node}, f.find? c = some t → h ∈ f.handles := by
    intro f ht
    have : h ∈ t.handles := List.mem_cons_of_mem _ hh
    exact (handles_sublist_of_find? ht).subset this
  induction f with
  | nil => cases ht
  | cons a below beside ih₁ ih₂ =>
    obtain ⟨ha, ha', hbelow, hbeside, hdisjoint⟩ := nodup_handles_cons.1 hf
    by_cases hc : a.handle = c
    · subst hc
      rw [find?, if_pos rfl] at ht
      obtain rfl := Option.some.inj ht
      rw [relabel_cons_of_ne fun e => ha (e ▸ hh), reshape, if_pos rfl,
        reshape_of_not_mem _ ha', relabel_of_not_mem g (hdisjoint h hh)]
    · rw [find?_cons_of_ne hc] at ht
      rw [reshape, if_neg hc]
      rcases Option.or_eq_some_iff.1 ht with ht | ⟨hno, ht⟩
      · have hin := hmem ht
        rw [relabel_cons_of_ne fun e => ha (e ▸ hin), ih₁ hbelow ht,
          relabel_of_not_mem g (hdisjoint h hin),
          reshape_of_not_mem _ (hdisjoint c (mem_handles_of_find? ht))]
      · have hin := hmem ht
        rw [relabel_cons_of_ne fun e => ha' (e ▸ hin), ih₂ hbeside ht,
          relabel_of_not_mem g fun hb => hdisjoint h hb hin,
          reshape_of_not_mem _ (find?_eq_none_iff.1 hno)]

/-! ## What is found afterwards -/

theorem find?_reshape_self (c : Handle) (g : Forest Node → Forest Node) (f : Forest Node) :
    (f.reshape c g).find? c = (f.find? c).map fun s => ⟨s.label, g s.children⟩ := by
  induction f with
  | nil => rfl
  | cons a below beside ih₁ ih₂ =>
    by_cases ha : a.handle = c
    · rw [reshape, if_pos ha, find?, find?, if_pos ha, if_pos ha]
      rfl
    · rw [reshape, if_neg ha, find?_cons_of_ne ha, find?_cons_of_ne ha, ih₁, ih₂]
      cases below.find? c <;> rfl

theorem mem_handles_reshape_self {c : Handle} {g : Forest Node → Forest Node} {f : Forest Node} :
    c ∈ (f.reshape c g).handles ↔ c ∈ f.handles := by
  rw [← not_iff_not, ← find?_eq_none_iff, ← find?_eq_none_iff, find?_reshape_self,
    Option.map_eq_none_iff]

section

variable {c h : Handle} {f : Forest Node} (hf : f.handles.Nodup)
  (hold : ∀ t, f.find? c = some t → h ∉ t.children.handles)

include hf hold

/-- A node outside is outside in each part of the forest. -/
theorem outside_cons {a : Node} {below beside : Forest Node} (hcons : f = cons a below beside)
    (ha : a.handle ≠ c) :
    (∀ t, below.find? c = some t → h ∉ t.children.handles) ∧
      ∀ t, beside.find? c = some t → h ∉ t.children.handles := by
  subst hcons
  obtain ⟨-, -, -, -, hdisjoint⟩ := nodup_handles_cons.1 hf
  constructor
  · intro t ht
    exact hold t (by rw [find?_cons_of_ne ha, ht, Option.some_or])
  · intro t ht
    have hno : below.find? c = none :=
      find?_eq_none_iff.2 fun hb => hdisjoint c hb (mem_handles_of_find? ht)
    exact hold t (by rw [find?_cons_of_ne ha, hno, Option.none_or, ht])

/-- At the node itself, all that was under it is inside, and the rest of the forest is outside. -/
theorem outside_cons_self {a : Node} {below beside : Forest Node}
    (hcons : f = cons a below beside) (ha : a.handle = c) :
    h ∉ below.handles ∧ ∀ t, beside.find? c = some t → h ∉ t.children.handles := by
  subst hcons ha
  obtain ⟨-, ha', -, -, -⟩ := nodup_handles_cons.1 hf
  exact ⟨hold ⟨a, below⟩ (by rw [find?, if_pos rfl]),
    fun t ht => absurd (mem_handles_of_find? ht) ha'⟩

/-- **Outside, trees are found where they were**, with the exchange done in them. -/
theorem find?_reshape (hne : c ≠ h) {new : Forest Node} (hnew : h ∉ new.handles) :
    (f.reshape c fun _ => new).find? h =
      (f.find? h).map fun s => ⟨s.label, s.children.reshape c fun _ => new⟩ := by
  induction f with
  | nil => rfl
  | cons a below beside ih₁ ih₂ =>
    obtain ⟨-, -, hbelow, hbeside, -⟩ := nodup_handles_cons.1 hf
    by_cases ha : a.handle = c
    · subst ha
      obtain ⟨hno, hold₂⟩ := outside_cons_self hf hold rfl rfl
      rw [reshape, if_pos rfl, find?_cons_of_ne hne, find?_cons_of_ne hne,
        find?_eq_none_iff.2 hnew, find?_eq_none_iff.2 hno, Option.none_or, Option.none_or,
        ih₂ hbeside hold₂]
    · obtain ⟨hold₁, hold₂⟩ := outside_cons hf hold rfl ha
      rw [reshape, if_neg ha]
      by_cases hh : a.handle = h
      · rw [find?, find?, if_pos hh, if_pos hh]
        rfl
      · rw [find?_cons_of_ne hh, find?_cons_of_ne hh, ih₁ hbelow hold₁, ih₂ hbeside hold₂]
        cases below.find? h <;> rfl

/-- **Outside, parents stay.** -/
theorem parent?_reshape {new : Forest Node} (hnew : h ∉ new.handles) :
    (f.reshape c fun _ => new).parent? h = f.parent? h := by
  induction f with
  | nil => rfl
  | cons a below beside ih₁ ih₂ =>
    obtain ⟨-, -, hbelow, hbeside, -⟩ := nodup_handles_cons.1 hf
    by_cases ha : a.handle = c
    · subst ha
      obtain ⟨hno, hold₂⟩ := outside_cons_self hf hold rfl rfl
      rw [reshape, if_pos rfl, parent?, parent?,
        if_neg fun hr => hnew (mem_handles_of_rootHandles hr),
        if_neg fun hr => hno (mem_handles_of_rootHandles hr), parent?_of_not_mem hnew,
        parent?_of_not_mem hno, ih₂ hbeside hold₂]
    · obtain ⟨hold₁, hold₂⟩ := outside_cons hf hold rfl ha
      rw [reshape, if_neg ha, parent?, parent?, rootHandles_reshape, ih₁ hbelow hold₁,
        ih₂ hbeside hold₂]

/-- Outside, trees are found where they were when others take the place of one. -/
theorem find?_splice (hne : c ≠ h) {new : Forest Node} (hnew : h ∉ new.handles) :
    (f.splice c new).find? h = (f.find? h).map fun s => ⟨s.label, s.children.splice c new⟩ := by
  induction f with
  | nil => rfl
  | cons a below beside ih₁ ih₂ =>
    obtain ⟨-, -, hbelow, hbeside, -⟩ := nodup_handles_cons.1 hf
    by_cases ha : a.handle = c
    · subst ha
      obtain ⟨hno, hold₂⟩ := outside_cons_self hf hold rfl rfl
      rw [splice, if_pos rfl, find?_append, find?_eq_none_iff.2 hnew, Option.none_or,
        find?_cons_of_ne hne, find?_eq_none_iff.2 hno, Option.none_or, ih₂ hbeside hold₂]
    · obtain ⟨hold₁, hold₂⟩ := outside_cons hf hold rfl ha
      rw [splice, if_neg ha]
      by_cases hh : a.handle = h
      · rw [find?, find?, if_pos hh, if_pos hh]
        rfl
      · rw [find?_cons_of_ne hh, find?_cons_of_ne hh, ih₁ hbelow hold₁, ih₂ hbeside hold₂]
        cases below.find? h <;> rfl

end

theorem splice_append (h : Handle) (new f f' : Forest Node) :
    (f ++ f').splice h new = f.splice h new ++ f'.splice h new := by
  induction f with
  | nil => rfl
  | cons a below beside _ ih =>
    rw [cons_append, splice, splice, ih]
    split
    · rw [append_assoc]
    · rfl

theorem not_mem_handles_splice (c : Handle) (f : Forest Node) :
    c ∉ (f.splice c nil).handles := by
  induction f with
  | nil => exact List.not_mem_nil
  | cons a below beside ih₁ ih₂ =>
    unfold splice
    split
    · exact ih₂
    · next ha =>
      rw [handles_cons, List.mem_cons, List.mem_append, not_or, not_or]
      exact ⟨fun e => ha e.symm, ih₁, ih₂⟩

end Forest

namespace Document

/-! ## Exchanges -/

/-- The handles of what stands under a node. -/
def below (d : Document) (h : Handle) : List Handle :=
  ((d.tree? h).map (·.children.handles)).getD []

theorem below_of_tree? {d : Document} {h : Handle} {t : Tree Node} (ht : d.tree? h = some t) :
    d.below h = t.children.handles := by
  rw [below, ht]
  rfl

theorem descendants_of_tree? {d : Document} {h : Handle} {t : Tree Node} (ht : d.tree? h = some t) :
    d.descendants h = h :: d.below h := by
  rw [descendants, ht, below_of_tree? ht]
  exact congrArg (· :: t.children.handles) (Forest.handle_of_find? ht)

/-- The children of `c` were exchanged for `new`, whose nodes were under `c` before or are new. -/
structure Exchange (d d' : Document) (c : Handle) (new : Forest Node) : Prop where
  /-- The children are those of `new`. -/
  forest : d'.forest = d.forest.reshape c fun _ => new
  /-- Their nodes were there or are new. -/
  handles : ∀ h ∈ new.handles, h ∈ d.below c ∨ d.next ≤ h
  /-- No handle is given again. -/
  next : d.next ≤ d'.next
  /-- The document is well-formed. -/
  wellFormed : d'.WellFormed

/-- All that is not under `c` is the same in both documents. -/
structure SameOutside (d d' : Document) (c : Handle) : Prop where
  /-- A node is what it was. -/
  content : ∀ h, h ∉ d.below c → h ∉ d'.below c → d'.content? h = d.content? h
  /-- It stands where it stood. -/
  parent : ∀ h, h ∉ d.below c → h ∉ d'.below c → d'.parent? h = d.parent? h
  /-- It has the children that it had, except for `c` itself. -/
  children : ∀ h, h ≠ c → h ∉ d.below c → h ∉ d'.below c → d'.children h = d.children h

section

variable {d d' : Document} {c : Handle} {new : Forest Node} (he : d.Exchange d' c new)

include he

theorem Exchange.tree?_of_ne (hd : d.WellFormed) {h : Handle} (hne : h ≠ c)
    (hold : h ∉ d.below c) (hnew : h ∉ new.handles) : d'.tree? h =
      (d.tree? h).map fun s => ⟨s.label, s.children.reshape c fun _ => new⟩ := by
  rw [tree?, he.forest]
  refine Forest.find?_reshape hd.nodup (fun s hs => ?_) hne.symm hnew
  rwa [← below_of_tree? hs]

variable {t : Tree Node} (ht : d.tree? c = some t)

include ht

theorem Exchange.tree?_self : d'.tree? c = some ⟨t.label, new⟩ := by
  rw [tree?, he.forest, Forest.find?_reshape_self, ← tree?, ht]
  rfl

variable (hd : d.WellFormed)

include hd

/-- **An exchange leaves everything outside as it is.** -/
theorem Exchange.sameOutside : d.SameOutside d' c := by
  have hbelow : d'.below c = new.handles := below_of_tree? (he.tree?_self ht)
  constructor
  · intro h hold hnew
    rw [hbelow] at hnew
    by_cases hne : h = c
    · subst hne
      rw [content?, content?, he.tree?_self ht, ht]
      rfl
    · rw [content?, content?, he.tree?_of_ne hd hne hold hnew]
      cases d.tree? h <;> rfl
  · intro h hold hnew
    rw [hbelow] at hnew
    rw [parent?, he.forest]
    refine Forest.parent?_reshape hd.nodup (fun s hs => ?_) hnew
    rwa [← below_of_tree? hs]
  · intro h hne hold hnew
    rw [hbelow] at hnew
    rw [children, children, he.tree?_of_ne hd hne hold hnew]
    cases d.tree? h with
    | none => rfl
    | some s => exact Forest.rootHandles_reshape c _ s.children

/-- **A tree that does not contain the node**, and is not under it, stays as it is. -/
theorem Exchange.tree?_apart {h : Handle} (hnext : h < d.next) (hc : c ∉ d.descendants h)
    (hh : h ∉ d.descendants c) : d'.tree? h = d.tree? h := by
  rw [descendants_of_tree? ht, List.mem_cons, not_or] at hh
  have hnew : h ∉ new.handles := fun hm =>
    (he.handles h hm).elim hh.2 fun hle => absurd hnext (Nat.not_lt.2 hle)
  rw [he.tree?_of_ne hd hh.1 hh.2 hnew]
  cases hs : d.tree? h with
  | none => rfl
  | some s =>
    rw [descendants_of_tree? hs, below_of_tree? hs, List.mem_cons, not_or] at hc
    rw [Option.map_some, Forest.reshape_of_not_mem _ hc.2]

omit hd in
/-- An exchange brings no node that was there outside under the node. -/
theorem Exchange.not_mem_descendants {h : Handle} (hnext : h < d.next)
    (hh : h ∉ d.descendants c) : h ∉ d'.descendants c := by
  have hself := he.tree?_self ht
  rw [descendants_of_tree? ht, List.mem_cons, not_or] at hh
  rw [descendants_of_tree? hself, below_of_tree? hself, List.mem_cons, not_or]
  refine ⟨hh.1, fun hm => (he.handles h hm).elim hh.2 fun hle => ?_⟩
  exact absurd hnext (Nat.not_lt.2 hle)

end

/-! ## Removing -/

theorem contains_remove_self (d : Document) (c : Handle) : (d.remove c).contains c = false := by
  rw [← Bool.not_eq_true, contains_iff]
  exact Forest.not_mem_handles_splice c d.forest

/-- A tree that is apart from a removed node stays as it is. -/
theorem WellFormed.tree?_remove_apart {d : Document} (hd : d.WellFormed) {c h : Handle}
    (hne : h ≠ c) (hc : c ∉ d.descendants h) (hh : h ∉ d.descendants c) :
    (d.remove c).tree? h = d.tree? h := by
  have hold : ∀ t, d.forest.find? c = some t → h ∉ t.children.handles := by
    intro t ht
    rw [descendants_of_tree? ht, below_of_tree? ht, List.mem_cons, not_or] at hh
    exact hh.2
  rw [tree?, remove, Forest.find?_splice hd.nodup hold hne.symm List.not_mem_nil, ← tree?]
  cases hs : d.tree? h with
  | none => rfl
  | some s =>
    rw [descendants_of_tree? hs, below_of_tree? hs, List.mem_cons, not_or] at hc
    rw [Option.map_some, Forest.splice_of_not_mem _ hc.2]

/-! ## Updates -/

/-- **Writing to nodes under one node** exchanges its children for the same ones, written to. -/
theorem WellFormed.foldl_apply_forest {d : Document} (hd : d.WellFormed) (v : Value)
    {bs : List Binding} {c : Handle} {t : Tree Node} (ht : d.tree? c = some t)
    (hbs : ∀ b ∈ bs, b.node ∈ t.children.handles) :
    ∃ new, (bs.foldl (Binding.apply · v ·) d).forest = d.forest.reshape c (fun _ => new) ∧
      (bs.foldl (Binding.apply · v ·) d).next = d.next ∧ new.handles = t.children.handles ∧
      new.rootHandles = t.children.rootHandles := by
  induction bs generalizing d t with
  | nil =>
    refine ⟨t.children, ?_, rfl, rfl, rfl⟩
    rw [List.foldl_nil, Forest.reshape_congr (g := fun _ => t.children) (k := id) hd.nodup ht rfl,
      Forest.reshape_id]
  | cons b bs ih =>
    let g := fun x => (b.target.write? v x).getD x
    have hwrite : Binding.apply d v b = { d with forest := d.forest.relabel b.node g } :=
      writeNode_eq_relabel hd b.node _
    have hwf : (Binding.apply d v b).WellFormed := hd.writeNode b.node _
    have hforest : (Binding.apply d v b).forest = d.forest.reshape c (Forest.relabel b.node g) := by
      rw [hwrite]
      exact Forest.relabel_eq_reshape g hd.nodup ht (hbs b List.mem_cons_self)
    have ht' : (Binding.apply d v b).tree? c = some ⟨t.label, t.children.relabel b.node g⟩ := by
      rw [tree?, hforest, Forest.find?_reshape_self, ← tree?, ht]
      rfl
    obtain ⟨new, hnew, hnext, hhandles, hroots⟩ := ih hwf ht' fun x hx => by
      rw [Forest.handles_relabel]
      exact hbs x (List.mem_cons_of_mem b hx)
    rw [Forest.handles_relabel] at hhandles
    rw [Forest.rootHandles_relabel] at hroots
    refine ⟨new, ?_, ?_, hhandles, hroots⟩
    · rw [List.foldl_cons, hnew, hforest, Forest.reshape_reshape]
    · rw [List.foldl_cons, hnext, hwrite]

/-! ## Moving all children of a node -/

/-- **A tree is moved** to any node that is not in it. -/
theorem moveUnder_of_not_mem {d : Document} {p c : Handle} {t : Tree Node}
    (ht : d.tree? c = some t) (hp : p ∉ t.handles) : d.moveUnder p c =
      ({ d with forest := (d.forest.splice c .nil).reshape p (· ++ t.toForest) }, .ok ()) := by
  have hself : p ≠ c := fun e => hp (e ▸ Forest.handle_of_find? ht ▸ List.mem_cons_self)
  have hdescendants : p ∉ d.descendants c := by
    rwa [descendants, ht]
  unfold moveUnder
  dsimp only
  rw [if_neg hself, if_neg hdescendants, ht]

/-- The first child of the last root becomes the last child of a node in another tree. -/
theorem WellFormed.moveUnder_first {d : Document} (hd : d.WellFormed) {c : Handle} {r a : Node}
    {left below beside : Forest Node}
    (hf : d.forest = left ++ .cons r (.cons a below beside) .nil) (hc : c ∈ left.handles) :
    d.moveUnder c a.handle =
      ({ d with forest := left.reshape c (· ++ .cons a below .nil) ++ .cons r beside .nil },
        .ok ()) := by
  have hnodup := hd.nodup
  rw [hf, Forest.handles_append, List.nodup_append'] at hnodup
  obtain ⟨hleft, hright, hdisjoint⟩ := hnodup
  obtain ⟨hr, -, hinner, -, -⟩ := Forest.nodup_handles_cons.1 hright
  obtain ⟨-, ha, -⟩ := Forest.nodup_handles_cons.1 hinner
  rw [Forest.handles_cons, List.mem_cons, List.mem_append, not_or, not_or] at hr
  obtain ⟨hra, -, -⟩ := hr
  have hin : ∀ x ∈ (Forest.cons a below beside).handles,
      x ∈ (Forest.cons r (.cons a below beside) .nil).handles := by
    intro x hx
    rw [Forest.handles_cons, Forest.handles_nil, List.append_nil]
    exact List.mem_cons_of_mem _ hx
  have haleft : a.handle ∉ left.handles := fun hm =>
    hdisjoint hm (hin _ (by rw [Forest.handles_cons]; exact List.mem_cons_self))
  have hcright : c ∉ (Forest.cons r (.cons a below beside) .nil).handles := fun hm =>
    hdisjoint hc hm
  have hhere : (Forest.cons a below beside).find? a.handle = some ⟨a, below⟩ := by
    rw [Forest.find?, if_pos rfl]
  have htree : d.tree? a.handle = some ⟨a, below⟩ := by
    rw [tree?, hf, Forest.find?_append, Forest.find?_eq_none_iff.2 haleft, Option.none_or,
      Forest.find?_cons_of_ne hra, hhere, Option.some_or]
  have hout : c ∉ (Tree.mk a below).handles := by
    intro hm
    refine hcright (hin c ?_)
    rw [Forest.handles_cons, ← List.cons_append]
    exact List.mem_append_left _ hm
  have htaken : (Forest.cons a below beside).splice a.handle .nil = beside := by
    rw [Forest.splice, if_pos rfl, Forest.nil_append, Forest.splice_of_not_mem _ ha]
  have hpruned : d.forest.splice a.handle .nil = left ++ .cons r beside .nil := by
    rw [hf, Forest.splice_append, Forest.splice_of_not_mem _ haleft, Forest.splice, if_neg hra,
      htaken]
    rfl
  have hstay : (Forest.cons r beside .nil).reshape c (· ++ .cons a below .nil) =
      .cons r beside .nil := by
    refine Forest.reshape_of_not_mem _ fun hm => hcright ?_
    simp only [Forest.handles_cons, Forest.handles_nil, List.append_nil, List.mem_cons,
      List.mem_append] at hm ⊢
    tauto
  rw [moveUnder_of_not_mem htree hout]
  simp only [hpruned, Forest.reshape_append, Tree.toForest, hstay]

/-- **All children of the last root** become the last children of a node in another tree. -/
theorem WellFormed.moveAllUnder_rootHandles {d : Document} (hd : d.WellFormed) {c : Handle}
    {r : Node} {left new : Forest Node} (hf : d.forest = left ++ .cons r new .nil)
    (hc : c ∈ left.handles) :
    d.moveAllUnder c new.rootHandles =
      ({ d with forest := left.reshape c (· ++ new) ++ .cons r .nil .nil }, .ok ()) := by
  induction new generalizing d left with
  | nil =>
    have hid : (fun below : Forest Node => below ++ .nil) = id := funext Forest.append_nil
    rw [hid, Forest.reshape_id, ← hf]
    rfl
  | cons a below beside _ ih =>
    have hmove := hd.moveUnder_first hf hc
    have hwf := hd.moveUnder c a.handle
    rw [hmove] at hwf
    rw [Forest.rootHandles_cons, Document.moveAllUnder, hmove]
    simp only
    rw [ih hwf rfl (Forest.mem_handles_reshape_self.2 hc), Forest.reshape_reshape]
    have happend : (fun b : Forest Node => b ++ .cons a below .nil ++ beside) =
        fun b => b ++ .cons a below beside := by
      funext b
      rw [Forest.append_assoc, Forest.cons_append, Forest.nil_append]
    rw [happend]

/-- **The children of a fragment** that comes after all other trees become the last children of a
node, and the fragment can be removed. -/
theorem WellFormed.append_fragment {d : Document} (hd : d.WellFormed) {c root : Handle}
    {left new : Forest Node} (hf : d.forest = left ++ .cons ⟨root, .fragment⟩ new .nil)
    (hc : c ∈ left.handles) :
    ∃ moved, d.append c root = (moved, .ok ()) ∧ moved.content? root = some .fragment ∧
      moved.remove root = { d with forest := left.reshape c (· ++ new) } := by
  let moved : Document :=
    { d with forest := left.reshape c (· ++ new) ++ .cons ⟨root, .fragment⟩ .nil .nil }
  have hmove : d.moveAllUnder c new.rootHandles = (moved, .ok ()) :=
    hd.moveAllUnder_rootHandles hf hc
  -- the last tree is found under its root, before the move and after it
  have hlast : ∀ {left' below : Forest Node},
      (left' ++ .cons ⟨root, .fragment⟩ below .nil).handles.Nodup → root ∉ left'.handles ∧
        (left' ++ .cons ⟨root, .fragment⟩ below .nil).find? root =
          some ⟨⟨root, .fragment⟩, below⟩ := by
    intro left' below hnodup
    rw [Forest.handles_append, List.nodup_append'] at hnodup
    have hnot : root ∉ left'.handles := fun hm =>
      hnodup.2.2 hm (by rw [Forest.handles_cons]; exact List.mem_cons_self)
    refine ⟨hnot, ?_⟩
    rw [Forest.find?_append, Forest.find?_eq_none_iff.2 hnot, Option.none_or, Forest.find?,
      if_pos rfl]
  have hnodup := hd.nodup
  rw [hf] at hnodup
  have htree : d.tree? root = some ⟨⟨root, .fragment⟩, new⟩ := by
    rw [tree?, hf]
    exact (hlast hnodup).2
  have hmoved : moved.WellFormed := by
    have := hd.moveAllUnder c new.rootHandles
    rwa [hmove] at this
  obtain ⟨hnot, hfound⟩ := hlast hmoved.nodup
  refine ⟨moved, ?_, ?_, ?_⟩
  · have hlive : d.contains c = true := by
      rw [contains_iff, hf, Forest.handles_append]
      exact List.mem_append_left _ hc
    have hroot : d.contains root = true := by
      rw [contains, htree]
      rfl
    have hthere : d.firstRemoved? [c, root] = none := by simp [firstRemoved?, hlive, hroot]
    have hfragment : d.content? root = some .fragment := by
      rw [content?, htree]
      rfl
    rw [append, hthere]
    simp only [hfragment, children_of_tree? htree]
    exact hmove
  · rw [content?, tree?, hfound]
    rfl
  · have htaken : (Forest.cons (Node.mk root .fragment) .nil .nil).splice root .nil = .nil := by
      rw [Forest.splice, if_pos rfl]
      rfl
    rw [remove, Forest.splice_append, Forest.splice_of_not_mem _ hnot, htaken, Forest.append_nil]

end Document

end MarkupTemplate
