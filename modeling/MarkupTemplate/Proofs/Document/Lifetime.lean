import MarkupTemplate.Proofs.Document.Exchange
import MarkupTemplate.Proofs.Document.Operation

/-!
# What becomes of a node

Whatever is done to a document, a handle goes on naming the node that it was given to, wherever this
node is taken. A node can be written to, but what kind of node it is does not change, nor the tag of
an element. Once the node is removed its handle names nothing, and is never given again.

So a later document is compared with an earlier one node by node: each node there is new, or was
there before (`Later`). One call of the document's own leads to a later document in this sense, and
any series of calls does.

Results:
* `Edit.later`, `Edits.later`: calls lead to a later document.
* `WellFormed.kind_of_later`: a node that is still there is of the kind that it was.
* `WellFormed.gone_of_later`: a node that was removed does not come back.
* `WellFormed.samePlaces_update`: an update leaves all nodes where they are.
-/

namespace MarkupTemplate

/-- What a node is, without all that can be written to it. -/
def Content.kind : Content → Content
  | element e => element { e with attributes := .empty }
  | text _ => text ""
  | comment _ => comment ""
  | fragment => fragment

theorem Content.kind_of_setText? {s : String} {c c' : Content} (h : setText? s c = some c') :
    c'.kind = c.kind := by
  cases c <;> cases h <;> rfl

theorem Content.kind_of_setAttribute? {name value : String} {c c' : Content}
    (h : setAttribute? name value c = some c') : c'.kind = c.kind := by
  cases c <;> cases h
  rfl

/-- After a node was changed by `k`, each node is what it was or what `k` makes of it. -/
theorem Forest.mem_labels_relabel {h : Handle} {k : Content → Content} {n : Node} {f : Forest Node}
    (hn : n ∈ (f.relabel h k).labels) :
    n ∈ f.labels ∨ n.handle = h ∧ ∃ c, n.content = k c := by
  induction f with
  | nil => cases hn
  | cons a below beside ih₁ ih₂ =>
    rw [relabel, labels, List.mem_cons, List.mem_append] at hn
    rw [labels, List.mem_cons, List.mem_append]
    rcases hn with rfl | hn | hn
    · split
      · next ha => exact .inr ⟨ha, _, rfl⟩
      · exact .inl (.inl rfl)
    · exact (ih₁ hn).imp_left fun hm => .inr (.inl hm)
    · exact (ih₂ hn).imp_left fun hm => .inr (.inr hm)

namespace Document

/-! ## Earlier and later -/

/-- Every node of `d'` is new, or a node of `d` that may have been written to. -/
structure Later (d d' : Document) : Prop where
  /-- No handle is given again. -/
  next : d.next ≤ d'.next
  /-- An old handle names a node that it named before, and of the same kind. -/
  labels : ∀ n ∈ d'.forest.labels,
    d.next ≤ n.handle ∨ ∃ c, ⟨n.handle, c⟩ ∈ d.forest.labels ∧ n.content.kind = c.kind

theorem Later.trans {d e e' : Document} (h : d.Later e) (h' : e.Later e') : d.Later e' where
  next := Nat.le_trans h.next h'.next
  labels := by
    intro n hn
    rcases h'.labels n hn with hnew | ⟨c, hc, hkind⟩
    · exact .inl (Nat.le_trans h.next hnew)
    · rcases h.labels _ hc with hnew | ⟨c', hc', hkind'⟩
      · exact .inl hnew
      · exact .inr ⟨c', hc', hkind.trans hkind'⟩

/-- A document that has only nodes of another, as they are there. -/
theorem later_of_subset {d : Document} {f : Forest Node} (h : f.labels ⊆ d.forest.labels) :
    d.Later { d with forest := f } where
  next := Nat.le_refl _
  labels := fun n hn => .inr ⟨n.content, h hn, rfl⟩

theorem later_self (d : Document) : d.Later d :=
  later_of_subset (List.Subset.refl _)

/-- A node is in the place of another, which is gone. -/
theorem later_splice {d : Document} {h : Handle} {f new : Forest Node}
    (hf : f.labels ⊆ d.forest.labels) (hnew : new.labels ⊆ d.forest.labels) :
    d.Later { d with forest := f.splice h new } :=
  later_of_subset fun _ hn => (Forest.mem_labels_splice hn).elim (@hnew _) (@hf _)

/-! ## Calls -/

theorem labels_taken_subset (h : Handle) (f : Forest Node) : (f.splice h .nil).labels ⊆ f.labels :=
  fun _ hn => (Forest.mem_labels_splice hn).elim (fun hn => absurd hn List.not_mem_nil) id

theorem labels_tree_subset {d : Document} {h : Handle} {t : Tree Node} (ht : d.tree? h = some t) :
    t.toForest.labels ⊆ d.forest.labels := by
  rw [Tree.toForest, Forest.labels, Forest.labels, List.append_nil]
  exact (Forest.labels_sublist_of_find? ht).subset

theorem later_plant (d : Document) (t : Tree Content) : d.Later (d.plant t).1 where
  next := by
    rw [next_plant]
    exact Nat.le_add_right _ _
  labels := by
    intro n hn
    rw [plant, Forest.labels_append, List.mem_append] at hn
    rcases hn with hn | hn
    · exact .inr ⟨n.content, hn, rfl⟩
    · have hmem : n.handle ∈ (t.toForest.number d.next).handles := List.mem_map_of_mem hn
      rw [Forest.handles_number, List.mem_range'_1] at hmem
      exact .inl hmem.1

theorem later_detach (d : Document) (h : Handle) : d.Later (d.detach h) := by
  unfold detach
  split
  · next t _ ht =>
    refine later_of_subset ?_
    rw [Forest.labels_append]
    exact List.append_subset.2 ⟨labels_taken_subset h d.forest, labels_tree_subset ht⟩
  · exact d.later_self

theorem later_moveUnder (d : Document) (parent child : Handle) :
    d.Later (d.moveUnder parent child).1 := by
  unfold moveUnder
  split
  · exact d.later_detach child
  · split
    · exact d.later_detach child
    · split
      · exact d.later_detach child
      · next t ht =>
        refine later_of_subset fun n hn => ?_
        have hparts := Forest.mem_labels_reshape t.toForest (fun below hn => ?_) hn
        · exact hparts.elim (@labels_tree_subset _ _ _ ht _) (@labels_taken_subset child _ _)
        · rw [Forest.labels_append, List.mem_append] at hn
          exact hn.symm

theorem later_moveAllUnder (d : Document) (parent : Handle) (children : List Handle) :
    d.Later (d.moveAllUnder parent children).1 := by
  induction children generalizing d with
  | nil => exact d.later_self
  | cons child rest ih =>
    have hmoved := d.later_moveUnder parent child
    rw [moveAllUnder]
    split
    · next moved h =>
      rw [h] at hmoved
      exact hmoved.trans (ih moved)
    · exact hmoved

theorem later_append (d : Document) (parent child : Handle) :
    d.Later (d.append parent child).1 := by
  unfold append
  split
  · exact d.later_self
  · split
    · exact d.later_moveAllUnder parent _
    · exact d.later_moveUnder parent child

theorem later_replaceChild (d : Document) (old new : Handle) :
    d.Later (d.replaceChild old new).1 := by
  unfold replaceChild
  split
  · exact d.later_self
  · split
    · exact d.later_detach new
    · split
      · exact d.later_detach new
      · split
        · exact d.later_detach new
        · next t ht => exact later_splice (labels_taken_subset new d.forest) (labels_tree_subset ht)

/-- Writing to a node leads to a later document if the node is of the same kind afterwards. -/
theorem later_writeNode (d : Document) (h : Handle) {g : Content → Option Content}
    (hg : ∀ c c', g c = some c' → c'.kind = c.kind) : d.Later (d.writeNode h g).1 := by
  unfold writeNode
  split
  · next c' hc' =>
    obtain ⟨c, hc, hwritten⟩ := Option.bind_eq_some_iff.1 hc'
    refine ⟨Nat.le_refl _, fun n hn => .inr ?_⟩
    rcases Forest.mem_labels_relabel hn with hn | ⟨hn, c₀, hcontent⟩
    · exact ⟨n.content, hn, rfl⟩
    · refine ⟨c, hn ▸ mem_labels_of_content? hc, ?_⟩
      rw [hcontent]
      exact hg c c' hwritten
  · exact d.later_self

/-- **A call leads to a later document.** -/
theorem Edit.later {d d' : Document} (h : d.Edit d') : d.Later d' := by
  cases h with
  | plant t => exact d.later_plant t
  | remove h => exact later_of_subset (labels_taken_subset h d.forest)
  | clearChildren h =>
    refine later_of_subset fun n hn => ?_
    exact (Forest.mem_labels_reshape .nil (fun _ => .inl) hn).elim
      (fun hn => absurd hn List.not_mem_nil) id
  | append parent child => exact d.later_append parent child
  | replaceChild old new => exact d.later_replaceChild old new
  | setAttribute h name value => exact d.later_writeNode h fun _ _ => Content.kind_of_setAttribute?
  | setText h s => exact d.later_writeNode h fun _ _ => Content.kind_of_setText?

/-- **So do calls one after the other.** -/
theorem Edits.later {d d' : Document} (h : d.Edits d') : d.Later d' := by
  induction h with
  | refl => exact d.later_self
  | tail _ hs ih => exact ih.trans hs.later

/-! ## Nodes -/

section

variable {d d' : Document} (hd : d.WellFormed) (h : d.Later d') {n : Handle} (hn : n < d.next)

include hd h hn

/-- **A node that is still there** is of the kind that it was. -/
theorem WellFormed.kind_of_later {c : Content} (hc : d'.content? n = some c) :
    ∃ c₀, d.content? n = some c₀ ∧ c.kind = c₀.kind := by
  rcases h.labels _ (mem_labels_of_content? hc) with hnew | ⟨c₀, hc₀, hkind⟩
  · exact absurd hn (Nat.not_lt.2 hnew)
  · exact ⟨c₀, hd.content?_eq_some_iff.2 hc₀, hkind⟩

/-- **A node that was removed** does not come back. -/
theorem WellFormed.gone_of_later (hgone : d.contains n = false) : d'.contains n = false := by
  rw [Bool.eq_false_iff, ne_eq, contains, Option.isSome_iff_exists]
  rintro ⟨t, ht⟩
  have hc : d'.content? n = some t.label.content := by rw [content?, ht, Option.map_some]
  obtain ⟨c₀, hc₀, -⟩ := hd.kind_of_later h hn hc
  obtain ⟨t₀, ht₀, -⟩ := Option.map_eq_some_iff.1 hc₀
  rw [contains, ht₀] at hgone
  cases hgone

end

/-! ## Leaving all nodes where they are -/

/-- The same nodes stand at the same places. -/
structure SamePlaces (d d' : Document) : Prop where
  /-- No node is created or removed. -/
  contains : ∀ h, d'.contains h = d.contains h
  /-- No handle is given. -/
  next : d'.next = d.next
  /-- A node has the children that it had, in their order. -/
  children : ∀ h, d'.children h = d.children h
  /-- It has the parent that it had. -/
  parent : ∀ h, d'.parent? h = d.parent? h

theorem SamePlaces.trans {d e e' : Document} (h : d.SamePlaces e) (h' : e.SamePlaces e') :
    d.SamePlaces e' where
  contains := fun x => (h'.contains x).trans (h.contains x)
  next := h'.next.trans h.next
  children := fun x => (h'.children x).trans (h.children x)
  parent := fun x => (h'.parent x).trans (h.parent x)

/-- Writing to a node moves none. -/
theorem WellFormed.samePlaces_writeNode {d : Document} (hd : d.WellFormed) (h : Handle)
    (g : Content → Option Content) : d.SamePlaces (d.writeNode h g).1 := by
  have hchildren : ∀ x, (d.writeNode h g).1.children x = d.children x := by
    intro x
    rw [children, children, tree?_writeNode hd]
    cases d.tree? x with
    | none => rfl
    | some t => exact Forest.rootHandles_relabel h _ t.children
  refine ⟨fun x => ?_, ?_, hchildren, fun x => ?_⟩
  · rw [contains, contains, tree?_writeNode hd, Option.isSome_map]
  · rw [writeNode_eq_relabel hd]
  · refine Option.ext fun p => ?_
    rw [(hd.writeNode h g).parent?_eq_some_iff, hd.parent?_eq_some_iff, hchildren]

/-- **An update leaves all nodes where they are.** -/
theorem WellFormed.samePlaces_update {d : Document} (hd : d.WellFormed) (u : Updater) (v : Value) :
    d.SamePlaces (d.update u v) := by
  unfold update
  induction u.bindings generalizing d with
  | nil => exact ⟨fun _ => rfl, rfl, fun _ => rfl, fun _ => rfl⟩
  | cons b bs ih =>
    have hwrite := hd.samePlaces_writeNode b.node (b.target.write? v)
    exact hwrite.trans (ih (hd.writeNode b.node (b.target.write? v)))

end Document

end MarkupTemplate
