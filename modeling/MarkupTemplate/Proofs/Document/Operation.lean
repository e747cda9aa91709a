import MarkupTemplate.Proofs.Document.Ancestry
import MarkupTemplate.Proofs.Document.Reachable
import MarkupTemplate.Renderer

/-!
# Whatever is done to a document

An `Operation` is a call that changes a document, with the nodes named by any handles, whether they
are there or not. A call that fails is performed as far as it goes. Each operation comes down to
calls of the document's own, so whatever is done to an empty document leaves a forest.

Results:
* `edits_perform`: an operation comes down to calls of the document's own.
* `Reachable.run`: operations lead from a reachable document to a reachable one.
* `WellFormed.isForest`: a well-formed document is a forest.
* `isForest_run`: so is what any operations leave of an empty document.
-/

namespace MarkupTemplate

/-- A call that changes a document. -/
inductive Operation where
  /-- A new element without attributes. -/
  | createElement (ns : Option String) (tag : String)
  /-- A new text. -/
  | createText (s : String)
  /-- A new comment. -/
  | createComment (s : String)
  /-- A new fragment. -/
  | createFragment
  /-- A node, or the children of a fragment, become the last children of a node. -/
  | append (parent child : Handle)
  /-- A node takes the place of another. -/
  | replaceChild (old new : Handle)
  /-- The descendants of a node are removed. -/
  | clearChildren (h : Handle)
  /-- A node and its descendants are removed. -/
  | remove (h : Handle)
  /-- An attribute of an element is set. -/
  | setAttribute (h : Handle) (name value : String)
  /-- The text of a text or a comment is set. -/
  | setText (h : Handle) (s : String)
  /-- A node is copied. -/
  | cloneNode (h : Handle) (deep : Bool)
  /-- A node of another document is copied. -/
  | importNode (source : Document) (h : Handle) (deep : Bool)
  /-- Markup is read into a new fragment. -/
  | parse (text : String)
  /-- A template gets an instance. -/
  | instantiate (t : Template) (data : Option Value)
  /-- An updater writes a value. -/
  | update (u : Updater) (v : Value)
  /-- A renderer puts a result into a container. -/
  | render (r : Renderer) (result : TemplateResult) (container : Handle)
  /-- A renderer discards a container. -/
  | discard (r : Renderer) (container : Handle)

namespace Document

/-- The document after an operation, as far as it goes where it fails. -/
def perform (d : Document) : Operation → Document
  | .createElement ns tag => (d.create (.element { tag, ns })).1
  | .createText s => (d.create (.text s)).1
  | .createComment s => (d.create (.comment s)).1
  | .createFragment => (d.create .fragment).1
  | .append parent child => (d.append parent child).1
  | .replaceChild old new => (d.replaceChild old new).1
  | .clearChildren h => if d.contains h then d.clearChildren h else d
  | .remove h => d.remove h
  | .setAttribute h name value => (d.setAttribute h name value).1
  | .setText h s => (d.setText h s).1
  | .cloneNode h deep => ((d.cloneNode h deep).map Prod.fst).getD d
  | .importNode source h deep => ((d.importNode source h deep).map Prod.fst).getD d
  | .parse text =>
    match Markup.parse text with
    | .ok f => (d.plant (.ofFragment f)).1
    | .error _ => d
  | .instantiate t data => (t.instantiate d data).1
  | .update u v => d.update u v
  | .render r result container => (r.render d result container).2.1
  | .discard r container => (r.discard d container).2.1

/-- The document after operations, one after the other. -/
def run (d : Document) (ops : List Operation) : Document :=
  ops.foldl perform d

/-! ## Operations lead to reachable documents -/

/-- A copy is planted, if there is anything to copy. -/
theorem edits_importNode (d source : Document) (n : Handle) (deep : Bool) :
    d.Edits (((d.importNode source n deep).map Prod.fst).getD d) := by
  unfold Document.importNode
  cases source.shape? n with
  | none => exact .refl
  | some t => exact .single (.plant (if deep then t else { t with children := .nil }))

/-- A first rendering clears the container and puts an instance into it; a later one is an
update. -/
theorem edits_render (d : Document) (r : Renderer) (result : TemplateResult)
    (container : Handle) : d.Edits (r.render d result container).2.1 := by
  have hplace : d.Edits (r.place d result container).2.1 := by
    have hmade := (Relation.ReflTransGen.single (.clearChildren container)).trans
      (edits_instantiate (d.clearChildren container) result.template (some result.values))
    unfold Renderer.place
    split
    · next d' e hi =>
      rw [hi] at hmade
      exact hmade
    · next d' i hi =>
      rw [hi] at hmade
      have happended := hmade.tail (.append container i.root)
      dsimp only at happended ⊢
      split
      · next d'' e ha =>
        rw [ha] at happended
        exact happended
      · next d'' ha =>
        rw [ha] at happended
        dsimp only
        split
        · exact happended.tail (.remove i.root)
        · exact happended
  unfold Renderer.render
  split
  · exact .refl
  · split
    · exact edits_update d _ result.values
    · exact hplace

theorem Reachable.render {d : Document} (h : d.Reachable) (r : Renderer) (result : TemplateResult)
    (container : Handle) : (r.render d result container).2.1.Reachable :=
  h.edits (edits_render d r result container)

/-- **An operation comes down to calls of the document's own.** -/
theorem edits_perform (d : Document) (op : Operation) : d.Edits (d.perform op) := by
  cases op with
  | createElement ns tag => exact .single (.plant ⟨.element { tag, ns }, .nil⟩)
  | createText s => exact .single (.plant ⟨.text s, .nil⟩)
  | createComment s => exact .single (.plant ⟨.comment s, .nil⟩)
  | createFragment => exact .single (.plant ⟨.fragment, .nil⟩)
  | append parent child => exact .single (.append parent child)
  | replaceChild old new => exact .single (.replaceChild old new)
  | clearChildren n =>
    simp only [Document.perform]
    split
    · exact .single (.clearChildren n)
    · exact .refl
  | remove n => exact .single (.remove n)
  | setAttribute n name value => exact .single (.setAttribute n name value)
  | setText n s => exact .single (.setText n s)
  | cloneNode n deep => exact edits_importNode d d n deep
  | importNode source n deep => exact edits_importNode d source n deep
  | parse text =>
    simp only [Document.perform]
    split
    · next f _ => exact .single (.plant (.ofFragment f))
    · exact .refl
  | instantiate t data => exact edits_instantiate d t data
  | update u v => exact edits_update d u v
  | render r result container => exact edits_render d r result container
  | discard r container => exact .single (.remove container)

theorem edits_run (d : Document) (ops : List Operation) : d.Edits (d.run ops) := by
  induction ops generalizing d with
  | nil => exact .refl
  | cons op ops ih => exact (edits_perform d op).trans (ih (d.perform op))

/-- **Operations lead from a reachable document to a reachable one.** -/
theorem Reachable.run {d : Document} (h : d.Reachable) (ops : List Operation) :
    (d.run ops).Reachable :=
  h.edits (edits_run d ops)

/-- Whatever is done to an empty document leads to a reachable one. -/
theorem reachable_run (ops : List Operation) : (empty.run ops).Reachable :=
  .run .empty ops

/-! ## Forests -/

/-- A document whose nodes form a forest. -/
structure IsForest (d : Document) : Prop where
  /-- A node is a child of one node at most. -/
  parent_unique : ∀ p q c, c ∈ d.children p → c ∈ d.children q → p = q
  /-- A node is the parent of its children, and of nothing else. -/
  parent_iff : ∀ p c, d.parent? c = some p ↔ c ∈ d.children p
  /-- A child is there once. -/
  once : ∀ p c, c ∈ d.children p → (d.children p).count c = 1
  /-- Parents and children are there. -/
  live : ∀ p c, d.parent? c = some p → d.contains p = true ∧ d.contains c = true
  /-- No node is its own ancestor. -/
  not_ancestor_self : ∀ h, ¬Relation.TransGen d.IsParent h h
  /-- Every chain of ancestors ends. -/
  wellFounded : WellFounded d.IsParent
  /-- The way up to a root ends, with the address that it leads along if it comes to the root. -/
  climbs : ∀ root h, d.climb root (d.forest.handles.length + 1) h [] = some (d.addressOf? root h)

/-- **A well-formed document is a forest.** -/
theorem WellFormed.isForest {d : Document} (hd : d.WellFormed) : d.IsForest where
  parent_unique := by
    intro p q c hp hq
    exact Option.some.inj ((hd.parent?_eq_some_iff.2 hp).symm.trans (hd.parent?_eq_some_iff.2 hq))
  parent_iff := fun p c => hd.parent?_eq_some_iff
  once := fun p c hc => List.count_eq_one_of_mem (hd.nodup_children p) hc
  live := fun p c hp => hd.contains_of_isParent hp
  not_ancestor_self := hd.not_ancestor_self
  wellFounded := hd.wellFounded_isParent
  climbs := by
    intro root h
    have hrounds : d.contains h = true →
        d.forest.handles.idxOf h < d.forest.handles.length + 1 := fun hc =>
      Nat.lt_succ_of_lt (List.idxOf_lt_length_iff.2 (contains_iff.1 hc))
    rw [hd.climb_eq root hrounds (Nat.succ_pos _)]
    simp

/-- **Whatever is done to an empty document leaves a forest**, whether the operations succeed or
fail. -/
theorem isForest_run (ops : List Operation) : (empty.run ops).IsForest :=
  (reachable_run ops).wellFormed.isForest

end Document

end MarkupTemplate
