import MarkupTemplate.Proofs.Document.Exchange
import MarkupTemplate.Proofs.Template.Injection
import MarkupTemplate.Renderer

/-!
# What a container shows

An instance is made under a fragment, and then its nodes are moved to the container. Its updater is
bound to the nodes, so it goes on working there: no address of a written template names the fragment
itself, and every other address names in the container what it named in the fragment.

Results:
* `Renderer.place_eq`: the first rendering exchanges the children of a container for an instance.
* `Shows.update`: a later one exchanges them for the same nodes with the new data.
* `Shows.map_shape?_children`: either way the children are those of a fresh instance.
-/

namespace MarkupTemplate

/-! ## Filling under a root -/

/-- Trees filled with the data `v` at descriptors relative to their parent. -/
def Forest.fill (v : Value) (ss : List Descriptor) (f : Forest Content) : Forest Content :=
  ((Tree.ofFragment f).fill v ss).children

/-- Nothing is written to the fragment at the root of a skeleton. -/
theorem Descriptor.Fits.places_ne_nil {k : Forest Content} {s : Descriptor}
    (h : s.Fits (.ofFragment k)) : s.address.places ≠ [] := by
  obtain ⟨n, hn, hfits⟩ := h
  intro hroot
  rw [hroot] at hn
  obtain rfl := Option.some.inj hn
  cases ht : s.target <;> rw [ht] at hfits <;> exact hfits

/-- What is filled in under a root does not depend on the root. -/
theorem Tree.fill_mk (v : Value) {ss : List Descriptor} (hs : ∀ s ∈ ss, s.address.places ≠ [])
    (a : Content) (f : Forest Content) : (Tree.mk a f).fill v ss = ⟨a, f.fill v ss⟩ := by
  suffices h : ∀ b : Content, (Tree.mk a f).fill v ss = ⟨a, ((Tree.mk b f).fill v ss).children⟩ from
    h .fragment
  intro b
  induction ss generalizing f with
  | nil => rfl
  | cons s ss ih =>
    obtain ⟨place, places, hplaces⟩ := List.exists_cons_of_ne_nil (hs s List.mem_cons_self)
    have hwrite : ∀ c : Content, Descriptor.writeTo v ⟨c, f⟩ s =
        ⟨c, f.relabelAt (fun c => (s.target.write? v c).getD c) (place :: places)⟩ := by
      intro c
      rw [Descriptor.writeTo, hplaces]
      rfl
    rw [Tree.fill, Tree.fill, List.foldl_cons, List.foldl_cons, hwrite, hwrite]
    exact ih (fun s' hs' => hs s' (List.mem_cons_of_mem s hs')) _

theorem Forest.fill_fill (v w : Value) (ss : List Descriptor)
    (hs : ∀ s ∈ ss, s.address.places ≠ []) (f : Forest Content) :
    (f.fill w ss).fill v ss = f.fill v ss := by
  have := Tree.fill_fill v w ss (.ofFragment f)
  rw [Tree.ofFragment, Tree.fill_mk w hs, Tree.fill_mk v hs, Tree.fill_mk v hs] at this
  exact (Tree.mk.inj this).2

namespace Document

/-! ## Bindings under a root -/

/-- Bindings are under the root, if none is to the root itself. -/
theorem WellFormed.node_mem_below {d : Document} (hd : d.WellFormed) {root : Handle}
    {t : Tree Node} (ht : d.tree? root = some t) {ss : List Descriptor}
    (hs : ∀ s ∈ ss, s.address.places ≠ []) {bs : List Binding}
    (hb : d.bindAll root ss = .ok bs) : ∀ b ∈ bs, b.node ∈ t.children.handles := by
  intro b hmem
  obtain ⟨s, hs', hnode, -⟩ := exists_of_mem_bindAll hb hmem
  obtain ⟨place, places, hplaces⟩ := List.exists_cons_of_ne_nil (hs s hs')
  obtain ⟨t', n, ht', hat, hn⟩ := nodeAt_eq_ok_iff.1 hnode
  obtain rfl := Option.some.inj (ht.symm.trans ht')
  rw [hplaces, Tree.at?_cons] at hat
  obtain ⟨child, hchild, hat⟩ := Option.bind_eq_some_iff.1 hat
  have hnodup : t.children.handles.Nodup := (List.nodup_cons.1 (nodup_handles_of_tree? hd ht)).2
  rw [← hn]
  exact Forest.mem_handles_of_at? hnodup hchild hat

/-- An address below a root names the same node from every root with the same children. -/
theorem nodeAt_of_children {d d' : Document} {root root' : Handle} {t t' : Tree Node}
    (ht : d.tree? root = some t) (ht' : d'.tree? root' = some t')
    (hchildren : t'.children = t.children) {a : Address} (ha : a.places ≠ []) {x : Handle}
    (hx : d.nodeAt root a = .ok x) : d'.nodeAt root' a = .ok x := by
  obtain ⟨place, places, hplaces⟩ := List.exists_cons_of_ne_nil ha
  obtain ⟨u, s, hu, hs, hlabel⟩ := nodeAt_eq_ok_iff.1 hx
  obtain rfl := Option.some.inj (ht.symm.trans hu)
  refine nodeAt_eq_ok_iff.2 ⟨t', s, ht', ?_, hlabel⟩
  rw [hplaces, Tree.at?_cons] at hs ⊢
  rwa [hchildren]

end Document

/-! ## Instances under a fragment -/

/-- An instance of a written template is a fragment after all other trees, with new nodes. -/
theorem Template.instantiate_forest {t : Template} {k : Forest Content}
    (hk : t.skeleton = some (.ofFragment k))
    (hfits : ∀ s ∈ t.descriptors, s.Fits (.ofFragment k)) {d : Document} (hd : d.WellFormed)
    {v : Value} (hv : v.isNull = false) :
    ∃ d' u new, t.instantiate d (some v) = (d', .ok ⟨d.next, u⟩) ∧
      d'.Attached ⟨d.next, u⟩ t.descriptors ∧
      d'.tree? d.next = some ⟨⟨d.next, .fragment⟩, new⟩ ∧ new.contents = k.fill v t.descriptors ∧
      d'.forest = d.forest ++ .cons ⟨d.next, .fragment⟩ new .nil ∧
      (∀ h ∈ new.handles, d.next < h) ∧ d.next ≤ d'.next := by
  have hplaces : ∀ s ∈ t.descriptors, s.address.places ≠ [] := fun s hs =>
    (hfits s hs).places_ne_nil
  have hreaches := fun s hs => (hfits s hs).reaches
  obtain ⟨d', i, hi, hattached, hshape⟩ := instantiate_attached hk hreaches hd (some v)
  -- the copy stands after all other trees, and all of its nodes are new
  have hplanted : (d.plant (.ofFragment k)).1.WellFormed := hd.plant _
  have hforest : (d.plant (.ofFragment k)).1.forest =
      d.forest ++ .cons ⟨d.next, .fragment⟩ (k.number (d.next + 1)) .nil := rfl
  have hold : d.next ∉ d.forest.handles := fun hm => Nat.lt_irrefl _ (hd.fresh _ hm)
  have htree : (d.plant (.ofFragment k)).1.tree? d.next =
      some ⟨⟨d.next, .fragment⟩, k.number (d.next + 1)⟩ := by
    rw [Document.tree?, hforest, Forest.find?_append, Forest.find?_eq_none_iff.2 hold,
      Option.none_or, Forest.find?, if_pos rfl]
  obtain ⟨bs, hbs⟩ := Document.exists_bindAll (Document.shape?_plant hd (.ofFragment k)) hreaches
  obtain ⟨new, hnew, hnext, hhandles, -⟩ :=
    hplanted.foldl_apply_forest v htree (hplanted.node_mem_below htree hplaces hbs)
  have hupdate : t.instantiate d (some v) =
      ((d.plant (.ofFragment k)).1.update (.collection (bs.map .bound)) v,
        .ok ⟨d.next, .collection (bs.map .bound)⟩) := by
    simp only [instantiate, hk, hv, Bool.false_eq_true, if_false]
    rw [hbs]
    rfl
  obtain ⟨rfl, houtcome⟩ := Prod.mk.inj (hi.symm.trans hupdate)
  obtain rfl := Except.ok.inj houtcome
  rw [Document.update, Updater.bindings, Updater.allBindings_bound] at hattached hshape hupdate
  have hplace : (bs.foldl (Binding.apply · v ·) (d.plant (.ofFragment k)).1).forest =
      d.forest ++ .cons ⟨d.next, .fragment⟩ new .nil := by
    rw [hnew, hforest, Forest.reshape_append, Forest.reshape_of_not_mem _ hold, Forest.reshape,
      if_pos rfl]
    rfl
  have hmade : (bs.foldl (Binding.apply · v ·) (d.plant (.ofFragment k)).1).tree? d.next =
      some ⟨⟨d.next, .fragment⟩, new⟩ := by
    rw [Document.tree?, hplace, Forest.find?_append, Forest.find?_eq_none_iff.2 hold,
      Option.none_or, Forest.find?, if_pos rfl]
  refine ⟨_, _, new, hupdate, hattached, hmade, ?_, hplace, ?_, ?_⟩
  · rw [Document.shape?, hmade, Tree.fillGiven, hv, if_neg Bool.false_ne_true, Tree.ofFragment,
      Tree.fill_mk v hplaces] at hshape
    exact (Tree.mk.inj (Option.some.inj hshape)).2
  · intro h hh
    rw [hhandles, Forest.handles_number, List.mem_range'_1] at hh
    exact hh.1
  · rw [hnext]
    exact Nat.le_add_right _ _

namespace Document

/-! ## Showing -/

/-- The container shows the template filled with `v`, and the updater writes to what it shows. -/
structure Shows (d : Document) (container : Handle) (u : Updater) (t : Template) (v : Value) :
    Prop where
  /-- The template was written. -/
  authored : t.Authored
  /-- The updater is bound to the nodes under the container. -/
  attached : d.Attached ⟨container, u⟩ t.descriptors
  /-- The trees under the container are those of the skeleton, filled. -/
  shape : ∃ a k, t.skeleton = some (.ofFragment k) ∧
    d.shape? container = some ⟨a, k.fill v t.descriptors⟩

section

variable {d : Document} {c : Handle} {u : Updater} {t : Template} {v : Value}
  (h : d.Shows c u t v)

include h

/-- What a container shows depends on its tree alone. -/
theorem Shows.of_tree?_eq {d' : Document} (hd : d'.WellFormed) (hc : d'.tree? c = d.tree? c) :
    d'.Shows c u t v where
  authored := h.authored
  attached := h.attached.of_tree?_eq hd hc
  shape := by
    rw [shape?, hc]
    exact h.shape

/-- The descriptors of what is shown name nodes under the container. -/
theorem Shows.places_ne_nil : ∀ s ∈ t.descriptors, s.address.places ≠ [] := by
  obtain ⟨k, -, -, hfits⟩ := h.authored.exists_skeleton
  exact fun s hs => (hfits s hs).places_ne_nil

/-- **A later rendering** exchanges the children for the same nodes with the new data. -/
theorem Shows.update (w : Value) :
    ∃ new, d.Exchange (d.update u w) c new ∧ (d.update u w).Shows c u t w ∧
      (d.update u w).children c = d.children c := by
  obtain ⟨a, k, hk, hshape⟩ := h.shape
  obtain ⟨s, hs, -⟩ := Option.map_eq_some_iff.1 hshape
  have hd := h.attached.wellFormed
  have hupdated := h.attached.update w
  obtain ⟨new, hforest, hnext, hhandles, hroots⟩ := hd.foldl_apply_forest w hs
    (hd.node_mem_below hs h.places_ne_nil h.attached.bound)
  have hexchange : d.Exchange (d.update u w) c new := by
    refine ⟨hforest, fun x hx => ?_, Nat.le_of_eq hnext.symm, hupdated.wellFormed⟩
    rw [below_of_tree? hs, ← hhandles]
    exact .inl hx
  refine ⟨new, hexchange, ⟨h.authored, hupdated, a, k, hk, ?_⟩, ?_⟩
  · have := h.attached.shape?_update w
    rw [hshape, Option.map_some, Tree.fill_mk w h.places_ne_nil,
      Forest.fill_fill w v _ h.places_ne_nil] at this
    exact this
  · rw [children_of_tree? (hexchange.tree?_self hs), children_of_tree? hs, hroots]

/-- **The children of a container are those of a fresh instance** with the same data. -/
theorem Shows.map_shape?_children (hv : v.isNull = false) {d₀ : Document} (hd₀ : d₀.WellFormed) :
    ∃ d₁ i, t.instantiate d₀ (some v) = (d₁, .ok i) ∧
      (d.children c).map d.shape? = (d₁.instanceNodes i).map d₁.shape? := by
  obtain ⟨a, k, hk, hshape⟩ := h.shape
  obtain ⟨k', hk', -, hfits⟩ := h.authored.exists_skeleton
  obtain rfl : k = k' := congrArg Tree.children (Option.some.inj (hk.symm.trans hk'))
  obtain ⟨d₁, u₁, new, hi, hattached, htree, hnew, -⟩ :=
    Template.instantiate_forest hk hfits hd₀ hv
  have hfresh : d₁.shape? d₀.next = some ⟨.fragment, k.fill v t.descriptors⟩ := by
    rw [shape?, htree, ← hnew]
    rfl
  refine ⟨d₁, _, hi, ?_⟩
  rw [instanceNodes_of_fragment hfresh, h.attached.wellFormed.map_shape?_children hshape,
    hattached.wellFormed.map_shape?_children hfresh]

end

end Document

/-! ## The first rendering -/

/-- **The first rendering** exchanges the children of a container for a new instance, with new
nodes. -/
theorem Renderer.place_eq (r : Renderer) {t : Template} (ht : t.Authored) {v : Value}
    (hv : v.isNull = false) {d : Document} (hd : d.WellFormed) {c : Handle} {s : Tree Node}
    (hs : d.tree? c = some s) :
    ∃ d' u new, r.place d ⟨t, v⟩ c =
        ({ r with rendered := Entries.insert r.rendered c u }, d', .ok ()) ∧
      d.Exchange d' c new ∧ (∀ h ∈ new.handles, d.next ≤ h) ∧ d'.Shows c u t v := by
  obtain ⟨k, hk, -, hfits⟩ := ht.exists_skeleton
  have hcleared : (d.clearChildren c).WellFormed := hd.step (.clearChildren c)
  have hroot : (d.clearChildren c).next = d.next := rfl
  obtain ⟨made, u, new, hmade, hattached, htree, hcontents, hforest, hnew, hnext⟩ :=
    Template.instantiate_forest hk hfits hcleared hv
  rw [hroot] at hmade hattached htree hforest hnew hnext
  have hc : c ∈ (d.clearChildren c).forest.handles :=
    Forest.mem_handles_reshape_self.2 (Forest.mem_handles_of_find? hs)
  obtain ⟨moved, happend, hfragment, hremove⟩ :=
    hattached.wellFormed.append_fragment hforest hc
  have hwf : (moved.remove d.next).WellFormed := by
    have := hattached.wellFormed.step (.append c d.next)
    rw [happend] at this
    exact this.step (.remove d.next)
  have hfresh : ∀ x ∈ new.handles, d.next ≤ x := fun x hx => Nat.le_of_lt (hnew x hx)
  have hexchange : d.Exchange (moved.remove d.next) c new := by
    refine ⟨?_, fun x hx => .inr (hfresh x hx), ?_, hwf⟩
    · rw [hremove]
      exact Forest.reshape_reshape c (fun _ => .nil) (· ++ new) d.forest
    · rw [hremove]
      exact hnext
  refine ⟨moved.remove d.next, u, new, ?_, hexchange, hfresh, ht, ⟨hwf, ?_⟩, ?_⟩
  · unfold place
    rw [hmade]
    simp only [happend, hfragment]
    rfl
  · exact Document.bindAll_congr (fun x hx y hy => Document.nodeAt_of_children htree
      (hexchange.tree?_self hs) rfl (hfits x hx).places_ne_nil hy) hattached.bound
  · refine ⟨s.label.content, k, hk, ?_⟩
    rw [Document.shape?, hexchange.tree?_self hs, ← hcontents]
    rfl

end MarkupTemplate
