import MarkupTemplate.Proofs.Document.WellFormed
import MarkupTemplate.Proofs.Template.Fill
import Mathlib.Data.List.Nodup
import Mathlib.Data.List.Perm.Subperm
import Mathlib.Logic.Relation

/-!
# Documents that operations lead to

Every operation keeps a document well-formed: a new node has a new handle, and a node that is moved
is taken away from its old place. So whatever was done to a document, it is well-formed.

The handles of a document are compared with those before an operation as lists up to order
(`List.Perm`, `List.Subperm`): none turns up more often than before.

Results:
* `handles_splice`: the tree under a handle makes room for the trees in its place.
* `WellFormed.step`: an operation keeps a document well-formed.
* `Reachable.wellFormed`: every document that operations lead to is well-formed.
* `edits_instantiate`, `edits_update`: making and updating instances comes down to calls of the
  document's own.
-/

namespace MarkupTemplate

namespace Forest

/-! ## Handles -/

theorem splice_of_not_mem {h : Handle} (new : Forest Node) {f : Forest Node}
    (hf : h ∉ f.handles) : f.splice h new = f := by
  induction f with
  | nil => rfl
  | cons a below beside ih₁ ih₂ =>
    rw [handles_cons, List.mem_cons, List.mem_append, not_or, not_or] at hf
    obtain ⟨ha, hbelow, hbeside⟩ := hf
    unfold splice
    rw [if_neg fun e => ha e.symm, ih₁ hbelow, ih₂ hbeside]

/-- **The tree under a handle makes room** for the trees in its place. -/
theorem handles_splice {h : Handle} (new : Forest Node) {f : Forest Node} (hf : f.handles.Nodup)
    {t : Tree Node} (ht : f.find? h = some t) :
    ((f.splice h new).handles ++ t.handles).Perm (f.handles ++ new.handles) := by
  induction f with
  | nil => cases ht
  | cons a below beside ih₁ ih₂ =>
    obtain ⟨ha, ha', hbelow, hbeside, hdisjoint⟩ := nodup_handles_cons.1 hf
    by_cases hh : a.handle = h
    · subst hh
      unfold find? at ht
      rw [if_pos rfl] at ht
      obtain rfl := Option.some.inj ht
      unfold splice
      rw [if_pos rfl, splice_of_not_mem new ha']
      refine List.perm_iff_count.2 ?_
      intro x
      simp only [handles_append, handles_cons, Tree.handles_mk, List.count_append,
        List.count_cons]
      omega
    · rw [find?_cons_of_ne hh] at ht
      unfold splice
      rw [if_neg hh]
      rcases Option.or_eq_some_iff.1 ht with ht | ⟨hno, ht⟩
      · rw [splice_of_not_mem new (hdisjoint h (mem_handles_of_find? ht))]
        refine List.perm_iff_count.2 ?_
        intro x
        have hcount := List.perm_iff_count.1 (ih₁ hbelow ht) x
        simp only [handles_cons, List.count_append, List.count_cons] at hcount ⊢
        omega
      · rw [splice_of_not_mem new (find?_eq_none_iff.1 hno)]
        refine List.perm_iff_count.2 ?_
        intro x
        have hcount := List.perm_iff_count.1 (ih₂ hbeside ht) x
        simp only [handles_cons, List.count_append, List.count_cons] at hcount ⊢
        omega

/-- A tree that is taken away is all that is missing afterwards. -/
theorem handles_taken {h : Handle} {f : Forest Node} (hf : f.handles.Nodup) {t : Tree Node}
    (ht : f.find? h = some t) :
    ((f.splice h nil).handles ++ t.toForest.handles).Perm f.handles := by
  have hroom := handles_splice nil hf ht
  rwa [handles_nil, List.append_nil, ← Tree.handles_toForest] at hroom

theorem handles_splice_sublist (h : Handle) (f : Forest Node) :
    (f.splice h nil).handles.Sublist f.handles := by
  induction f with
  | nil => exact List.Sublist.refl _
  | cons a below beside ih₁ ih₂ =>
    unfold splice
    rw [handles_cons]
    split
    · exact (ih₂.trans (List.sublist_append_right _ _)).cons _
    · rw [handles_cons]
      exact (ih₁.append ih₂).cons_cons _

theorem handles_reshape_sublist (h : Handle) (f : Forest Node) :
    (f.reshape h fun _ => nil).handles.Sublist f.handles := by
  induction f with
  | nil => exact List.Sublist.refl _
  | cons a below beside ih₁ ih₂ =>
    unfold reshape
    split
    · simp only [handles_cons, handles_nil, List.nil_append]
      exact (ih₂.trans (List.sublist_append_right _ _)).cons_cons _
    · simp only [handles_cons]
      exact (ih₁.append ih₂).cons_cons _

theorem reshape_of_not_mem {h : Handle} (g : Forest Node → Forest Node) {f : Forest Node}
    (hf : h ∉ f.handles) : f.reshape h g = f := by
  induction f with
  | nil => rfl
  | cons a below beside ih₁ ih₂ =>
    rw [handles_cons, List.mem_cons, List.mem_append, not_or, not_or] at hf
    obtain ⟨ha, hbelow, hbeside⟩ := hf
    unfold reshape
    rw [if_neg fun e => ha e.symm, ih₁ hbelow, ih₂ hbeside]

/-- New children are added once. -/
theorem handles_reshape_append {h : Handle} (new : Forest Node) {f : Forest Node}
    (hf : f.handles.Nodup) :
    (f.reshape h (· ++ new)).handles.Subperm (f.handles ++ new.handles) := by
  induction f with
  | nil => exact (List.nil_sublist _).subperm
  | cons a below beside ih₁ ih₂ =>
    obtain ⟨ha, ha', hbelow, hbeside, hdisjoint⟩ := nodup_handles_cons.1 hf
    unfold reshape
    by_cases hh : a.handle = h
    · subst hh
      rw [if_pos rfl, reshape_of_not_mem _ ha']
      refine List.Perm.subperm (List.perm_iff_count.2 ?_)
      intro x
      simp only [handles_append, handles_cons, List.count_append, List.count_cons]
      omega
    · rw [if_neg hh]
      refine List.subperm_ext_iff.2 ?_
      intro x _
      by_cases hmem : h ∈ below.handles
      · rw [reshape_of_not_mem _ (hdisjoint h hmem)]
        have hcount := List.Subperm.count_le (ih₁ hbelow) x
        simp only [handles_cons, List.count_append, List.count_cons] at hcount ⊢
        omega
      · rw [reshape_of_not_mem _ hmem]
        have hcount := List.Subperm.count_le (ih₂ hbeside) x
        simp only [handles_cons, List.count_append, List.count_cons] at hcount ⊢
        omega

end Forest

namespace Document

/-! ## Operations -/

/-- An operation leads from a document to another. -/
inductive Step (d : Document) : Document → Prop where
  /-- A tree is copied into the document, or a node is created in it. -/
  | plant (t : Tree Content) : Step d (d.plant t).1
  /-- A node is taken away from its parent. -/
  | detach (h : Handle) : Step d (d.detach h)
  /-- A node is removed. -/
  | remove (h : Handle) : Step d (d.remove h)
  /-- The children of a node are removed. -/
  | clearChildren (h : Handle) : Step d (d.clearChildren h)
  /-- A node is moved, or the move fails. -/
  | append (parent child : Handle) : Step d (d.append parent child).1
  /-- A node takes the place of another, or fails to. -/
  | replaceChild (old new : Handle) : Step d (d.replaceChild old new).1
  /-- A node is written to. -/
  | writeNode (h : Handle) (g : Content → Option Content) : Step d (d.writeNode h g).1

/-- Operations lead from the document without nodes to this one. -/
inductive Reachable : Document → Prop where
  /-- Nothing was done. -/
  | empty : Reachable .empty
  /-- One more operation was done. -/
  | step {d d' : Document} (h : Reachable d) (hs : d.Step d') : Reachable d'

/-- A document with the same handles or fewer is as well-formed as before. -/
theorem WellFormed.of_subperm {d : Document} (hd : d.WellFormed) {f : Forest Node}
    (h : f.handles.Subperm d.forest.handles) : WellFormed { d with forest := f } where
  nodup := List.nodup_iff_count_le_one.2 fun x =>
    Nat.le_trans (h.count_le x) (List.nodup_iff_count_le_one.1 hd.nodup x)
  fresh := fun x hx => hd.fresh x (h.subset hx)

theorem WellFormed.detach {d : Document} (hd : d.WellFormed) (h : Handle) :
    (d.detach h).WellFormed := by
  unfold Document.detach
  split
  · next t _ ht =>
    refine hd.of_subperm (List.Perm.subperm ?_)
    rw [Forest.handles_append]
    exact Forest.handles_taken hd.nodup ht
  · exact hd

theorem WellFormed.moveUnder {d : Document} (hd : d.WellFormed) (parent child : Handle) :
    (d.moveUnder parent child).1.WellFormed := by
  unfold Document.moveUnder
  split
  · exact hd.detach child
  · split
    · exact hd.detach child
    · split
      · exact hd.detach child
      · next t ht =>
        have hpruned : (d.forest.splice child .nil).handles.Nodup :=
          hd.nodup.sublist (Forest.handles_splice_sublist child d.forest)
        exact hd.of_subperm ((Forest.handles_reshape_append t.toForest hpruned).trans
          (Forest.handles_taken hd.nodup ht).subperm)

theorem WellFormed.moveAllUnder {d : Document} (hd : d.WellFormed) (parent : Handle)
    (children : List Handle) : (d.moveAllUnder parent children).1.WellFormed := by
  induction children generalizing d with
  | nil => exact hd
  | cons child rest ih =>
    have hmoved := hd.moveUnder parent child
    rw [Document.moveAllUnder]
    split
    · next moved h =>
      rw [h] at hmoved
      exact ih hmoved
    · exact hmoved

theorem WellFormed.replaceChild {d : Document} (hd : d.WellFormed) (old new : Handle) :
    (d.replaceChild old new).1.WellFormed := by
  unfold Document.replaceChild
  split
  · exact hd
  · split
    · exact hd.detach new
    · split
      · exact hd.detach new
      · split
        · exact hd.detach new
        · next t ht =>
          have hpruned : (d.forest.splice new .nil).handles.Nodup :=
            hd.nodup.sublist (Forest.handles_splice_sublist new d.forest)
          refine hd.of_subperm ?_
          cases hold : (d.forest.splice new .nil).find? old with
          | none =>
            rw [Forest.splice_of_not_mem _ (Forest.find?_eq_none_iff.1 hold)]
            exact (Forest.handles_splice_sublist new d.forest).subperm
          | some s =>
            have hplace := Forest.handles_splice t.toForest hpruned hold
            exact (List.sublist_append_left _ s.handles).subperm.trans
              (hplace.trans (Forest.handles_taken hd.nodup ht)).subperm

/-- **An operation keeps a document well-formed.** -/
theorem WellFormed.step {d d' : Document} (hd : d.WellFormed) (h : d.Step d') : d'.WellFormed := by
  cases h with
  | plant t => exact hd.plant t
  | detach h => exact hd.detach h
  | remove h => exact hd.of_subperm (Forest.handles_splice_sublist h d.forest).subperm
  | clearChildren h => exact hd.of_subperm (Forest.handles_reshape_sublist h d.forest).subperm
  | append parent child =>
    unfold Document.append
    split
    · exact hd
    · split
      · exact hd.moveAllUnder parent _
      · exact hd.moveUnder parent child
  | replaceChild old new => exact hd.replaceChild old new
  | writeNode h g => exact hd.writeNode h g

/-- **Every document that operations lead to is well-formed.** -/
theorem Reachable.wellFormed {d : Document} (h : d.Reachable) : d.WellFormed := by
  induction h with
  | empty => exact wellFormed_empty
  | step _ hs ih => exact ih.step hs

/-! ## Calls of a document's own -/

/-- One call of a document's own: nodes are created, moved or removed, or one node is written to. -/
inductive Edit (d : Document) : Document → Prop where
  /-- A tree is copied into the document, or a node is created in it. -/
  | plant (t : Tree Content) : Edit d (d.plant t).1
  /-- A node is removed. -/
  | remove (h : Handle) : Edit d (d.remove h)
  /-- The children of a node are removed. -/
  | clearChildren (h : Handle) : Edit d (d.clearChildren h)
  /-- A node is moved, or the move fails. -/
  | append (parent child : Handle) : Edit d (d.append parent child).1
  /-- A node takes the place of another, or fails to. -/
  | replaceChild (old new : Handle) : Edit d (d.replaceChild old new).1
  /-- An attribute of an element is set. -/
  | setAttribute (h : Handle) (name value : String) : Edit d (d.setAttribute h name value).1
  /-- The text of a text or a comment is set. -/
  | setText (h : Handle) (s : String) : Edit d (d.setText h s).1

/-- Calls of a document's own, one after the other. -/
abbrev Edits : Document → Document → Prop :=
  Relation.ReflTransGen Edit

theorem Edit.step {d d' : Document} (h : d.Edit d') : d.Step d' := by
  cases h with
  | plant t => exact .plant t
  | remove h => exact .remove h
  | clearChildren h => exact .clearChildren h
  | append parent child => exact .append parent child
  | replaceChild old new => exact .replaceChild old new
  | setAttribute h name value => exact .writeNode h _
  | setText h s => exact .writeNode h _

theorem Reachable.edits {d d' : Document} (h : d.Reachable) (he : d.Edits d') : d'.Reachable := by
  induction he with
  | refl => exact h
  | tail _ hs ih => exact ih.step hs.step

theorem edit_apply (d : Document) (v : Value) (b : Binding) : d.Edit (Binding.apply d v b) := by
  obtain ⟨h, t⟩ := b
  cases t with
  | textContent expression => exact .setText h _
  | attributeValue name tokens => exact .setAttribute h name _

/-- **An update writes to one node after the other.** -/
theorem edits_update (d : Document) (u : Updater) (v : Value) : d.Edits (d.update u v) := by
  rw [Document.update]
  induction u.bindings generalizing d with
  | nil => exact .refl
  | cons b bs ih => exact .head (edit_apply d v b) (ih (Binding.apply d v b))

/-- **Making an instance** is planting its skeleton and an update. -/
theorem edits_instantiate (d : Document) (t : Template) (data : Option Value) :
    d.Edits (t.instantiate d data).1 := by
  unfold Template.instantiate
  split
  · exact .refl
  · next k _ =>
    have hplanted : d.Edits (d.plant k).1 := .single (.plant k)
    dsimp only
    split
    · exact hplanted
    · dsimp only
      split
      · next v =>
        split
        · exact hplanted
        · exact hplanted.trans (edits_update _ _ v)
      · exact hplanted

end Document

end MarkupTemplate
