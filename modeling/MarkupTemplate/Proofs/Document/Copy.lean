import MarkupTemplate.Proofs.Document.Addressing

/-!
# Copies

A node is copied with its subtree node by node: a new node is made, and the copies of the children
are put under it one after the other. Meanwhile the document that is copied to grows, and it may be
the one that is copied from. But what is there of the copy is at any time a planted tree, and
planting leaves all that was there as it was, so what is still to be copied can be read as before.

Results:
* `WellFormed.moveUnder_last`: the last tree of a document becomes the last child of a node.
* `WellFormed.moveUnder_plant`: so a planted tree can be put together from planted parts.
* `copyFrom_eq`: copying node by node comes to planting the tree at once.
* `exists_nodeAt_iff`, `WellFormed.shape?_of_nodeAt`: where addresses lead is seen in the tree
  without its handles.
* `copyOf_plant`: a planted tree is a copy of the tree that it was read from.
* `copies_are_faithful`: so are the copies that are made in the same document or in another.
-/

namespace MarkupTemplate

namespace Forest

/-- **The trees of a forest get their handles one after the other.** -/
theorem number_append (start : Handle) (f g : Forest Content) :
    (f ++ g).number start = f.number start ++ g.number (start + f.labels.length) := by
  induction f generalizing start with
  | nil => rfl
  | cons a below beside _ ih =>
    have hstart : start + 1 + below.labels.length + beside.labels.length =
        start + (cons a below beside).labels.length := by
      simp only [labels, List.length_cons, List.length_append, Nat.add_assoc, Nat.add_comm 1]
    rw [cons_append, number, number, ih, cons_append, hstart]

theorem width_map {α β : Type} (g : α → β) (f : Forest α) : (f.map g).width = f.width := by
  rw [← length_trees, trees_map, List.length_map, length_trees]

theorem length_labels_le_of_mem_trees {α : Type} {f : Forest α} {t : Tree α} (ht : t ∈ f.trees) :
    t.labels.length ≤ f.labels.length := by
  induction f with
  | nil => cases ht
  | cons a below beside _ ih =>
    rw [labels, List.length_cons, List.length_append]
    rcases List.mem_cons.1 ht with rfl | ht
    · exact Nat.succ_le_succ (Nat.le_add_right _ _)
    · exact Nat.le_succ_of_le (Nat.le_add_left_of_le (ih ht))

end Forest

namespace Document

/-! ## Node by node -/

/-- The document with what was made in it put under a node, if anything was made. -/
def adopt (d : Document) (p : Handle) : Option (Document × Handle) → Document
  | some (made, child) => (made.moveUnder p child).1
  | none => d

/-- A copy of a node and its subtree, made node by node: the copy of each child is put under the
copy of the node as soon as it is made. What is copied is looked up in `read d`, where `d` is the
document as it is at the time. At most `rounds` generations are copied. -/
def copyFrom (read : Document → Document) :
    (rounds : Nat) → (d : Document) → (h : Handle) → Option (Document × Handle)
  | 0, _, _ => none
  | rounds + 1, d, h => do
    let content ← (read d).content? h
    let (made, copy) := d.create content
    let filled := ((read made).children h).foldl (fun d child =>
      d.adopt copy (copyFrom read rounds d child)) made
    return (filled, copy)

/-- **The last tree of a document** becomes the last child of a node in another tree. -/
theorem WellFormed.moveUnder_last {d : Document} (hd : d.WellFormed) {p : Handle} {a : Node}
    {left below : Forest Node} (hf : d.forest = left ++ .cons a below .nil)
    (hp : p ∈ left.handles) :
    d.moveUnder p a.handle =
      ({ d with forest := left.reshape p (· ++ .cons a below .nil) }, .ok ()) := by
  have hnodup := hd.nodup
  rw [hf, Forest.handles_append, List.nodup_append'] at hnodup
  obtain ⟨-, -, hdisjoint⟩ := hnodup
  have hleft : a.handle ∉ left.handles := fun hm => hdisjoint hm (by simp)
  have htree : d.tree? a.handle = some ⟨a, below⟩ := by
    rw [tree?, hf, Forest.find?_append, Forest.find?_eq_none_iff.2 hleft, Option.none_or,
      Forest.find?, if_pos rfl]
  have hout : p ∉ (Tree.mk a below).handles := by
    intro hm
    refine hdisjoint hp ?_
    rw [Forest.handles_cons, Forest.handles_nil, List.append_nil]
    exact hm
  have htaken : (Forest.cons a below .nil).splice a.handle .nil = .nil := by
    rw [Forest.splice, if_pos rfl]
    rfl
  rw [moveUnder_of_not_mem htree hout]
  simp only [hf, Forest.splice_append, Forest.splice_of_not_mem _ hleft, htaken,
    Forest.append_nil, Tree.toForest]

/-- **A planted tree can be put together from planted parts.** -/
theorem WellFormed.moveUnder_plant {d : Document} (hd : d.WellFormed) (c : Content)
    (f : Forest Content) (t : Tree Content) :
    (((d.plant ⟨c, f⟩).1.plant t).1.moveUnder d.next (d.plant ⟨c, f⟩).1.next).1 =
      (d.plant ⟨c, f ++ t.toForest⟩).1 := by
  have hold : d.next ∉ d.forest.handles := fun hm => Nat.lt_irrefl _ (hd.fresh _ hm)
  have hstart : (d.plant ⟨c, f⟩).1.next = d.next + 1 + f.labels.length := by
    rw [next_plant, Tree.toForest, Forest.labels, List.length_cons, Forest.labels, List.append_nil,
      Nat.add_assoc, Nat.add_comm 1]
  have hwf : ((d.plant ⟨c, f⟩).1.plant t).1.WellFormed := (hd.plant ⟨c, f⟩).plant t
  have hforest : ((d.plant ⟨c, f⟩).1.plant t).1.forest =
      (d.forest ++ .cons ⟨d.next, c⟩ (f.number (d.next + 1)) .nil) ++
        t.toForest.number (d.plant ⟨c, f⟩).1.next := rfl
  have hfilled : (d.forest ++ .cons ⟨d.next, c⟩ (f.number (d.next + 1)) .nil).reshape d.next
      (· ++ t.toForest.number (d.plant ⟨c, f⟩).1.next) =
        (d.plant ⟨c, f ++ t.toForest⟩).1.forest := by
    rw [Forest.reshape_append, Forest.reshape_of_not_mem _ hold, Forest.reshape, if_pos rfl,
      hstart, ← Forest.number_append]
    rfl
  have hnext : ((d.plant ⟨c, f⟩).1.plant t).1.next = (d.plant ⟨c, f ++ t.toForest⟩).1.next := by
    rw [next_plant, hstart, next_plant]
    simp only [Tree.toForest, Forest.labels, Forest.labels_append, List.length_cons,
      List.length_append, List.append_nil, Nat.add_assoc, Nat.add_comm 1]
  have hmoved : ((d.plant ⟨c, f⟩).1.plant t).1.moveUnder d.next (d.plant ⟨c, f⟩).1.next = _ :=
    hwf.moveUnder_last hforest (by simp)
  rw [hmoved]
  exact Document.mk.injEq _ _ _ _ |>.mpr ⟨hfilled, hnext⟩

section

variable {d : Document} {read : Document → Document} (hwf : (read d).WellFormed)
  (hread : ∀ d' made, d.Extends d' made → ∀ h t, (read d).tree? h = some t →
    (read d').tree? h = some t)

include hwf hread

/-- **Copying node by node comes to planting the tree at once**, if what is copied from looks the
same while other trees are planted. -/
theorem copyFrom_eq {rounds : Nat} {d' : Document} {made : Forest Node} (he : d.Extends d' made)
    {h : Handle} {t : Tree Node} (ht : (read d).tree? h = some t)
    (hrounds : t.labels.length ≤ rounds) :
    copyFrom read rounds d' h = some (d'.plant t.contents) := by
  induction rounds generalizing d' made h t with
  | zero => exact absurd hrounds (Nat.not_succ_le_zero _)
  | succ rounds ih =>
    have hsize : t.children.labels.length ≤ rounds := Nat.le_of_succ_le_succ hrounds
    -- what there is of the copy is planted, and the other children are put under it one by one
    have hloop : ∀ f : Forest Node, (∀ s ∈ f.trees, s ∈ t.children.trees) → ∀ g : Forest Content,
        f.rootHandles.foldl (fun d child => d.adopt d'.next (copyFrom read rounds d child))
          (d'.plant ⟨t.label.content, g⟩).1 =
        (d'.plant ⟨t.label.content, g ++ f.contents⟩).1 := by
      intro f hf g
      induction f generalizing g with
      | nil => rw [Forest.contents, Forest.map, Forest.append_nil]; rfl
      | cons a below beside _ ihf =>
        obtain ⟨hfirst, hrest⟩ := List.forall_mem_cons.1 hf
        have hcopy := ih (he.plant ⟨t.label.content, g⟩) (hwf.tree?_of_mem_trees ht hfirst)
          (Nat.le_trans (Forest.length_labels_le_of_mem_trees hfirst) hsize)
        rw [Forest.rootHandles_cons, List.foldl_cons, hcopy, adopt]
        have hput := he.wellFormed.moveUnder_plant t.label.content g (Tree.mk a below).contents
        have hcons : (Forest.cons a below beside).contents =
            (Tree.mk a below).contents.toForest ++ beside.contents := rfl
        rw [hcons, ← Forest.append_assoc, ← ihf hrest, ← hput]
        rfl
    have hcontent : (read d').content? h = some t.label.content := by
      rw [content?, hread d' made he h t ht, Option.map_some]
    have hbelow : (read (d'.plant ⟨t.label.content, .nil⟩).1).children h =
        t.children.rootHandles := children_of_tree? (hread _ _ (he.plant _) h t ht)
    have hfilled := hloop t.children (fun _ hs => hs) .nil
    rw [← hbelow, Forest.nil_append] at hfilled
    rw [copyFrom, hcontent]
    exact congrArg (fun d => some (d, d'.next)) hfilled

end

/-! ## What a copy is -/

/-- The node `c` of `d'` is a copy of the node `n` of `source`, with all that is under it, and `d'`
is otherwise `d`. -/
structure CopyOf (source : Document) (n : Handle) (d d' : Document) (c : Handle) : Prop where
  /-- The copy stands under no other node. -/
  parent : d'.parent? c = none
  /-- The same addresses lead to nodes. -/
  addresses : ∀ a, (∃ x, d'.nodeAt c a = .ok x) ↔ ∃ y, source.nodeAt n a = .ok y
  /-- They lead to nodes that are the same and have as many children. -/
  alike : ∀ a x y, d'.nodeAt c a = .ok x → source.nodeAt n a = .ok y →
    ∃ content, d'.content? x = some content ∧ source.content? y = some content ∧
      (d'.children x).length = (source.children y).length
  /-- They lead to every node of the copy. -/
  reached : ∀ x, x ∈ d'.descendants c ↔ ∃ a, d'.nodeAt c a = .ok x
  /-- No node of the copy is there twice. -/
  distinct : (d'.descendants c).Nodup
  /-- The nodes of the copy were never there before. -/
  fresh : ∀ x ∈ d'.descendants c, d.next ≤ x ∧ d.contains x = false
  /-- Nothing else is new. -/
  contained : ∀ x, d'.contains x = true ↔ d.contains x = true ∨ x ∈ d'.descendants c
  /-- What was there before is what it was and where it was, and so is all that is under it. -/
  old : ∀ x, d.contains x = true →
    d'.content? x = d.content? x ∧ d'.parent? x = d.parent? x ∧ d'.children x = d.children x ∧
      ∀ a, d'.nodeAt x a = d.nodeAt x a

theorem content?_eq (d : Document) (h : Handle) : d.content? h = (d.shape? h).map Tree.label := by
  rw [content?, shape?, Option.map_map]
  rfl

theorem length_children_eq (d : Document) (h : Handle) :
    (d.children h).length = ((d.shape? h).map (·.children.width)).getD 0 := by
  cases ht : d.tree? h with
  | none =>
    rw [children, shape?, ht]
    rfl
  | some t =>
    rw [length_children ht, shape?, ht]
    exact (t.children.width_map Node.content).symm

/-- **Which addresses lead to nodes** is seen in the tree without its handles. -/
theorem exists_nodeAt_iff {d : Document} {root : Handle} {a : Address} :
    (∃ x, d.nodeAt root a = .ok x) ↔
      ∃ s, ((d.shape? root).bind fun t => t.at? a.places) = some s := by
  simp only [nodeAt_eq_ok_iff, shape?, Option.bind_map, Function.comp_def, Tree.at?_map]
  cases d.tree? root with
  | none => simp
  | some t => cases t.at? a.places <;> simp

/-- **So is the tree** that an address leads to. -/
theorem WellFormed.shape?_of_nodeAt {d : Document} (hd : d.WellFormed) {root x : Handle}
    {a : Address} (hx : d.nodeAt root a = .ok x) :
    d.shape? x = (d.shape? root).bind fun t => t.at? a.places := by
  obtain ⟨t, s, ht, hs, rfl⟩ := nodeAt_eq_ok_iff.1 hx
  have hfind : d.tree? s.label.handle = some s := Forest.find?_of_at? hd.nodup ht hs
  rw [shape?, shape?, hfind, ht, Option.map_some, Option.map_some, Option.bind_some, Tree.at?_map,
    hs, Option.map_some]

/-- **A planted tree is a copy** of the tree that it was read from. -/
theorem copyOf_plant {source d : Document} (hs : source.WellFormed) (hd : d.WellFormed)
    {n : Handle} {t : Tree Content} (ht : source.shape? n = some t) :
    source.CopyOf n d (d.plant t).1 (d.plant t).2 := by
  have he : d.Extends (d.plant t).1 (t.toForest.number d.next) := hd.extends_self.plant t
  have hshape : (d.plant t).1.shape? (d.plant t).2 = source.shape? n :=
    (shape?_plant hd t).trans ht.symm
  have hmade : (d.plant t).1.descendants (d.plant t).2 = (t.toForest.number d.next).handles := by
    have hfirst := he.descendants_made (k := 0) rfl
    rw [Tree.toForest, Forest.number, Forest.handles_cons, Forest.number, Forest.handles_nil,
      List.append_nil]
    exact hfirst
  have hlt : ∀ {x}, d.contains x = true → x < d.next := fun hx => hd.fresh _ (contains_iff.1 hx)
  exact
    { parent := by
        refine Forest.parent?_of_rootHandles he.wellFormed.nodup ?_
        rw [he.forest, Forest.rootHandles_append, List.mem_append]
        exact .inr List.mem_cons_self
      addresses := fun a => by rw [exists_nodeAt_iff, exists_nodeAt_iff, hshape]
      alike := by
        intro a x y hx hy
        have hsame : (d.plant t).1.shape? x = source.shape? y := by
          rw [he.wellFormed.shape?_of_nodeAt hx, hs.shape?_of_nodeAt hy, hshape]
        obtain ⟨s, hat⟩ := exists_nodeAt_iff.1 ⟨y, hy⟩
        have hy' : source.shape? y = some s := (hs.shape?_of_nodeAt hy).trans hat
        refine ⟨s.label, ?_, ?_, ?_⟩
        · rw [content?_eq, hsame, hy', Option.map_some]
        · rw [content?_eq, hy', Option.map_some]
        · rw [length_children_eq, length_children_eq, hsame]
      reached := fun x => he.wellFormed.mem_descendants_iff
      distinct := hmade ▸ he.nodup.1
      fresh := by
        intro x hx
        rw [hmade] at hx
        exact ⟨he.fresh x hx, Bool.eq_false_iff.2 fun hc => he.not_mem (hlt hc) hx⟩
      contained := by
        intro x
        rw [hmade, contains_iff, contains_iff, he.forest, Forest.handles_append, List.mem_append]
      old := by
        intro x hx
        have htree := he.tree?_old (hlt hx)
        refine ⟨?_, he.parent?_old (hlt hx), ?_, fun a => ?_⟩
        · rw [content?, htree]
          rfl
        · rw [children, htree]
          rfl
        · rw [nodeAt, htree]
          rfl }

/-! ## Copies in the same document and in another -/

/-- **Copies are faithful, new and apart.** Whatever was done to a document, a node that is there
can be copied with all that is under it, into the same document or into another. The copy is a new
node under no other. The same addresses lead to nodes from it as from the node that was copied, and
these nodes are the same in all but their handles; they are new and all distinct; and what was there
before is as it was. Making the copy node by node, while the document grows, comes to the same. -/
theorem copies_are_faithful {source d : Document} (hs : source.Reachable) (hd : d.Reachable)
    {n : Handle} (hn : source.contains n = true) :
    (∃ d' c, d.importNode source n true = some (d', c) ∧ source.CopyOf n d d' c ∧
      ∀ rounds ≥ source.forest.handles.length,
        copyFrom (fun _ => source) rounds d n = some (d', c)) ∧
      ∃ d' c, source.cloneNode n true = some (d', c) ∧ source.CopyOf n source d' c ∧
        ∀ rounds ≥ source.forest.handles.length, copyFrom id rounds source n = some (d', c) := by
  obtain ⟨t, ht⟩ := Option.isSome_iff_exists.1 hn
  have ht : source.tree? n = some t := ht
  have hsw := hs.wellFormed
  have hdw := hd.wellFormed
  have hshape : source.shape? n = some t.contents := by
    rw [shape?, ht]
    rfl
  have hsize : t.labels.length ≤ source.forest.handles.length := by
    have := (Forest.handles_sublist_of_find? ht).length_le
    rwa [Tree.handles, List.length_map] at this
  refine ⟨⟨_, _, ?_, copyOf_plant hsw hdw hshape, fun rounds hr => ?_⟩, _, _, ?_,
    copyOf_plant hsw hsw hshape, fun rounds hr => ?_⟩
  · rw [importNode, hshape]
    rfl
  · exact copyFrom_eq hsw (fun _ _ _ _ _ h => h) hdw.extends_self ht (hsize.trans hr)
  · rw [cloneNode, importNode, hshape]
    rfl
  · refine copyFrom_eq hsw (fun d' made he h s hs' => ?_) hsw.extends_self ht (hsize.trans hr)
    have hlt : h < source.next := hsw.fresh h (Forest.mem_handles_of_find? hs')
    exact (he.tree?_old hlt).trans hs'

/-- A list with one item is copied beside itself and into a document that holds a comment. -/
theorem copies_are_faithful_list :
    let source := empty.run [.createElement none "ul", .createElement none "li", .createText "x",
      .append 0 1, .append 1 2]
    let d := empty.run [.createComment "y"]
    source.Reachable ∧ d.Reachable ∧ source.contains 0 = true ∧
      (∃ d' c, d.importNode source 0 true = some (d', c) ∧ source.CopyOf 0 d d' c ∧
        ∃ x, d'.nodeAt c ⟨[0, 0]⟩ = .ok x ∧ d'.content? x = some (.text "x")) ∧
      ∃ d' c, source.cloneNode 0 true = some (d', c) ∧ source.CopyOf 0 source d' c ∧
        d'.nodeAt 0 ⟨[0, 0]⟩ = .ok 2 := by
  intro source d
  have hs : source.Reachable := reachable_run _
  have hd : d.Reachable := reachable_run _
  have hn : source.contains 0 = true := by decide +kernel
  have hat : source.nodeAt 0 ⟨[0, 0]⟩ = .ok 2 := by decide +kernel
  have hcontent : source.content? 2 = some (.text "x") := by decide +kernel
  obtain ⟨⟨d₁, c₁, himport, hcopy₁, -⟩, d₂, c₂, hclone, hcopy₂, -⟩ := copies_are_faithful hs hd hn
  obtain ⟨x, hx⟩ := (hcopy₁.addresses ⟨[0, 0]⟩).2 ⟨2, hat⟩
  obtain ⟨content, hcx, hcy, -⟩ := hcopy₁.alike _ x 2 hx hat
  have hsame : some content = some (.text "x") := hcy.symm.trans hcontent
  obtain ⟨-, -, -, hold⟩ := hcopy₂.old 0 hn
  exact ⟨hs, hd, hn, ⟨d₁, c₁, himport, hcopy₁, x, hx, hcx.trans hsame⟩, d₂, c₂, hclone, hcopy₂,
    (hold _).trans hat⟩

end Document

end MarkupTemplate
