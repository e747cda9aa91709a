import MarkupTemplate.Proofs.Document.Exchange

/-!
# Trees beside the old ones

What is planted in a document stands after all that was there before, and its nodes are new. So a
document that was only planted in, and written to in what was planted, is the old one with other
trees beside it (`Extends`), and nothing that is done to one of these trees shows in another.

Results:
* `Extends.plant`, `Extends.update`: planting, and updating in one of the new trees, adds to them or
  changes this one, and no other.
* `Extends.tree?_old`, `Extends.parent?_old`: the old nodes are what they were.
* `Extends.tree?_made`: the new trees are found under their roots.
* `Extends.apart`: they have no node in common.
-/

namespace MarkupTemplate

/-! ## Trees side by side -/

theorem Tree.handles_relabel (h : Handle) (g : Content → Content) (t : Tree Node) :
    (t.relabel h g).handles = t.handles := by
  obtain ⟨a, below⟩ := t
  rw [relabel, handles_mk, handles_mk, Forest.handles_relabel]
  split <;> rfl

theorem Tree.relabel_of_not_mem {h : Handle} (g : Content → Content) {t : Tree Node}
    (ht : h ∉ t.handles) : t.relabel h g = t := by
  obtain ⟨a, below⟩ := t
  rw [handles_mk, List.mem_cons, not_or] at ht
  rw [relabel, if_neg (Ne.symm ht.1), Forest.relabel_of_not_mem g ht.2]

namespace Forest

@[simp] theorem rootHandles_append (f g : Forest Node) :
    (f ++ g).rootHandles = f.rootHandles ++ g.rootHandles := by
  simp [rootHandles, roots]

theorem parent?_append (h : Handle) (f g : Forest Node) :
    (f ++ g).parent? h = (f.parent? h).or (g.parent? h) := by
  induction f with
  | nil => rfl
  | cons a below beside _ ih =>
    rw [cons_append, parent?, parent?, ih]
    split
    · rfl
    · exact Option.or_assoc.symm

theorem relabel_append (h : Handle) (k : Content → Content) (f g : Forest Node) :
    (f ++ g).relabel h k = f.relabel h k ++ g.relabel h k := by
  induction f with
  | nil => rfl
  | cons a below beside _ ih => rw [cons_append, relabel, relabel, ih, cons_append]

theorem getElem?_rootHandles (f : Forest Node) (i : Nat) :
    f.rootHandles[i]? = (f.tree? i).map (·.label.handle) := by
  rw [rootHandles, roots, tree?_eq_getElem?, List.map_map, List.getElem?_map]
  rfl

theorem lt_width_of_tree? {f : Forest Node} {i : Nat} {t : Tree Node} (ht : f.tree? i = some t) :
    i < f.width := by
  rw [tree?_eq_getElem?] at ht
  rw [← length_trees]
  exact (List.getElem?_eq_some_iff.1 ht).1

theorem tree?_append_of_some {f : Forest Node} {i : Nat} {t : Tree Node} (ht : f.tree? i = some t)
    (g : Forest Node) : (f ++ g).tree? i = some t := by
  have hi : i < f.trees.length := f.length_trees ▸ lt_width_of_tree? ht
  rw [tree?_eq_getElem?, trees_append, List.getElem?_append_left hi, ← tree?_eq_getElem?, ht]

/-- The same trees, of which the one at place `k` may have been written to. -/
structure SameBut (k : Nat) (f g : Forest Node) : Prop where
  /-- The roots are the same. -/
  rootHandles : g.rootHandles = f.rootHandles
  /-- The nodes of the one tree are the same. -/
  handles : (g.tree? k).map Tree.handles = (f.tree? k).map Tree.handles
  /-- The other trees are the same. -/
  others : ∀ j, j ≠ k → g.tree? j = f.tree? j

theorem SameBut.trans {k : Nat} {f g h : Forest Node} (hf : SameBut k f g) (hg : SameBut k g h) :
    SameBut k f h where
  rootHandles := hg.rootHandles.trans hf.rootHandles
  handles := hg.handles.trans hf.handles
  others := fun j hj => (hg.others j hj).trans (hf.others j hj)

/-- Writing to a node changes the one tree that it is in. -/
theorem sameBut_relabel {f : Forest Node} (hf : f.handles.Nodup) {k : Nat} {t : Tree Node}
    (ht : f.tree? k = some t) {h : Handle} (hh : h ∈ t.handles) (g : Content → Content) :
    SameBut k f (f.relabel h g) where
  rootHandles := rootHandles_relabel h g f
  handles := by
    rw [tree?_relabel, ht, Option.map_some, Option.map_some, Option.map_some, Tree.handles_relabel]
  others := by
    intro j hj
    rw [tree?_relabel]
    cases hs : f.tree? j with
    | none => rfl
    | some s =>
      have hnot : h ∉ s.handles := fun hm => hj (eq_of_mem_handles hf hs ht hm hh)
      rw [Option.map_some, Tree.relabel_of_not_mem g hnot]

end Forest

namespace Document

/-- The trees `made` stand after those of `d`, and their nodes are new. -/
structure Extends (d d' : Document) (made : Forest Node) : Prop where
  /-- The document is well-formed. -/
  wellFormed : d'.WellFormed
  /-- The trees stand after those of `d`. -/
  forest : d'.forest = d.forest ++ made
  /-- Their nodes are new. -/
  fresh : ∀ h ∈ made.handles, d.next ≤ h
  /-- No handle is given again. -/
  next : d.next ≤ d'.next

theorem WellFormed.extends_self {d : Document} (hd : d.WellFormed) : d.Extends d .nil where
  wellFormed := hd
  forest := (Forest.append_nil d.forest).symm
  fresh := fun _ hh => absurd hh List.not_mem_nil
  next := Nat.le_refl _

section

variable {d d' : Document} {made : Forest Node} (he : d.Extends d' made)

include he

/-! ## What is found afterwards -/

/-- The nodes of the new trees are not those of the old ones. -/
theorem Extends.nodup : made.handles.Nodup ∧ ∀ h ∈ made.handles, h ∉ d.forest.handles := by
  have hnodup := he.wellFormed.nodup
  rw [he.forest, Forest.handles_append, List.nodup_append'] at hnodup
  exact ⟨hnodup.2.1, fun h hm hold => hnodup.2.2 hold hm⟩

theorem Extends.not_mem {h : Handle} (hh : h < d.next) : h ∉ made.handles :=
  fun hm => absurd hh (Nat.not_lt.2 (he.fresh h hm))

/-- **Under an old handle** there is what there was. -/
theorem Extends.tree?_old {h : Handle} (hh : h < d.next) : d'.tree? h = d.tree? h := by
  rw [tree?, he.forest, Forest.find?_append, Forest.find?_eq_none_iff.2 (he.not_mem hh),
    Option.or_none]
  rfl

/-- **An old node** stands where it stood. -/
theorem Extends.parent?_old {h : Handle} (hh : h < d.next) : d'.parent? h = d.parent? h := by
  rw [parent?, he.forest, Forest.parent?_append, Forest.parent?_of_not_mem (he.not_mem hh),
    Option.or_none]
  rfl

/-- **A new tree is found** under its root. -/
theorem Extends.tree?_made {k : Nat} {t : Tree Node} (ht : made.tree? k = some t) :
    d'.tree? t.label.handle = some t := by
  refine Forest.find?_of_tree? he.wellFormed.nodup (i := d.forest.width + k) ?_
  rw [he.forest, Forest.tree?_append_width, ht]

theorem Extends.descendants_made {k : Nat} {t : Tree Node} (ht : made.tree? k = some t) :
    d'.descendants t.label.handle = t.handles := by
  rw [descendants, he.tree?_made ht]
  rfl

/-- **The new trees have no node in common.** -/
theorem Extends.apart {j k : Nat} {s t : Tree Node} (hs : made.tree? j = some s)
    (ht : made.tree? k = some t) (hne : j ≠ k) {h : Handle} (hh : h ∈ s.handles) : h ∉ t.handles :=
  fun hm => hne (Forest.eq_of_mem_handles he.nodup.1 hs ht hh hm)

/-! ## What is done to the new trees -/

/-- **Planting** puts a tree beside the others. -/
theorem Extends.plant (t : Tree Content) :
    d.Extends (d'.plant t).1 (made ++ t.toForest.number d'.next) where
  wellFormed := he.wellFormed.plant t
  forest := by
    rw [Document.plant, he.forest, Forest.append_assoc]
  fresh := by
    intro h hh
    rw [Forest.handles_append, List.mem_append, Forest.handles_number, List.mem_range'_1] at hh
    rcases hh with hh | ⟨hh, -⟩
    · exact he.fresh h hh
    · exact Nat.le_trans he.next hh
  next := by
    rw [next_plant]
    exact Nat.le_add_right_of_le he.next

/-- **Writing** to a node of a new tree changes this tree alone. -/
theorem Extends.writeNode {k : Nat} {t : Tree Node} (ht : made.tree? k = some t) {h : Handle}
    (hh : h ∈ t.handles) (g : Content → Option Content) :
    ∃ made', d.Extends (d'.writeNode h g).1 made' ∧ Forest.SameBut k made made' := by
  obtain ⟨hnodup, hnew⟩ := he.nodup
  have hmem : h ∈ made.handles := Forest.mem_handles_of_tree? hnodup ht hh
  refine ⟨made.relabel h fun c => (g c).getD c, ⟨he.wellFormed.writeNode h g, ?_, ?_, ?_⟩,
    Forest.sameBut_relabel hnodup ht hh _⟩
  · rw [writeNode_eq_relabel he.wellFormed, he.forest, Forest.relabel_append,
      Forest.relabel_of_not_mem _ (hnew h hmem)]
  · rw [Forest.handles_relabel]
    exact he.fresh
  · rw [writeNode_eq_relabel he.wellFormed]
    exact he.next

/-- **So does updating** where all that is bound is in this tree. -/
theorem Extends.update {u : Updater} {k : Nat} {t : Tree Node} (ht : made.tree? k = some t)
    (hu : ∀ b ∈ u.bindings, b.node ∈ t.handles) (v : Value) :
    ∃ made', d.Extends (d'.update u v) made' ∧ Forest.SameBut k made made' := by
  unfold Document.update
  generalize u.bindings = bs at hu ⊢
  induction bs generalizing d' made t with
  | nil => exact ⟨made, he, ⟨rfl, rfl, fun _ _ => rfl⟩⟩
  | cons b bs ih =>
    obtain ⟨made₁, he₁, hsame₁⟩ :=
      he.writeNode ht (hu b List.mem_cons_self) (b.target.write? v)
    -- the nodes of the tree are still the same
    have hhandles := hsame₁.handles
    rw [ht, Option.map_some] at hhandles
    obtain ⟨t₁, ht₁, hnodes⟩ := Option.map_eq_some_iff.1 hhandles
    obtain ⟨made₂, he₂, hsame₂⟩ :=
      ih he₁ ht₁ fun b' hb' => hnodes ▸ hu b' (List.mem_cons_of_mem b hb')
    exact ⟨made₂, he₂, hsame₁.trans hsame₂⟩

end

end Document

end MarkupTemplate
