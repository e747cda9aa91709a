import MarkupTemplate.Proofs.Document.Ancestry
import MarkupTemplate.Proofs.Markup.RoundTrip
import MarkupTemplate.Proofs.Template.Outline
import MarkupTemplate.Proofs.Template.Overwrite

/-!
# Data injects no markup

A template that was written as markup, or as a call site, can be written as markup again, whatever
data it is filled with: the data is read back as the texts and values that it was, and the elements
and comments are those of the skeleton.

What an instance holds is what it was filled with last (`BoundTo.attached`). The rest is about
trees: the skeleton can be written (`Authored.exists_skeleton`), so the filled skeleton can, and
what is written is read back with its texts merged.

Results:
* `reparse_instance`: the markup of an instance is read back as the instance with its texts merged.
-/

namespace MarkupTemplate

/-! ## Skeletons can be written -/

namespace Forest

theorem writable_slots (tokens : List Token) : (slots tokens).Writable := by
  induction tokens with
  | nil => trivial
  | cons t tokens ih => cases t with
    | static s => exact ⟨rfl, ih⟩
    | expression e => exact ⟨rfl, ih⟩

/-- An element stays printable when its values change. -/
theorem printable_mapValues {e : Element} (he : e.Printable) (f : String → String) :
    ({ e with attributes := e.attributes.mapValues f } : Element).Printable :=
  ⟨he.tag, he.ns, by rw [Attributes.names_mapValues]; exact he.names⟩

theorem writable_skeleton {f : Forest Content} (hf : f.Writable) : f.skeleton.Writable := by
  induction f with
  | nil => trivial
  | cons a below beside ih₁ ih₂ =>
    obtain ⟨ha, hbeside⟩ := hf
    refine writable_append.2 ⟨?_, ih₂ hbeside⟩
    cases a with
    | text s => exact writable_slots (tokenize s)
    | element e => exact ⟨⟨printable_mapValues ha.1 _, ih₁ ha.2⟩, trivial⟩
    | comment s => exact ⟨⟨ha.1, rfl⟩, trivial⟩
    | fragment => exact absurd ha id

theorem writable_withoutGaps {f : Forest Content} (hf : f.Writable) :
    (f.map withoutGaps).Writable := by
  induction f with
  | nil => trivial
  | cons a below beside ih₁ ih₂ =>
    obtain ⟨ha, hbeside⟩ := hf
    cases a with
    | text s =>
      obtain rfl : below = nil := ha
      exact ⟨rfl, ih₂ hbeside⟩
    | element e => exact ⟨⟨printable_mapValues ha.1 _, ih₁ ha.2⟩, ih₂ hbeside⟩
    | comment s =>
      obtain ⟨hs, rfl⟩ := ha
      refine ⟨?_, ih₂ hbeside⟩
      by_cases hgap : (Gap.ofComment? s).isSome
      · rw [withoutGaps, if_pos hgap]
        rfl
      · rw [withoutGaps, if_neg hgap]
        exact ⟨hs, rfl⟩
    | fragment => exact absurd ha id

end Forest

/-! ## Templates that were written -/

/-- The template was written as markup with placeholders, or as a call site. -/
inductive Template.Authored : Template → Prop
  /-- It was written as markup. -/
  | ofMarkup {text : String} {t : Template} (h : Template.ofMarkup text = .ok t) : Authored t
  /-- It was written as a call site. -/
  | ofCallSite {site : CallSite} {t : Template} (h : site.compile = .ok t) : Authored t

theorem Template.ofMarkup_eq_ok_iff {text : String} {t : Template} :
    Template.ofMarkup text = .ok t ↔
      ∃ f, Markup.parse text = .ok f ∧ t = .ofTree (.ofFragment f) := by
  unfold ofMarkup
  cases Markup.parse text with
  | error e => simp [Except.map]
  | ok f => simp [Except.map, eq_comm]

/-- The skeleton of a call site is that of its markup without gaps. -/
theorem CallSite.compile_eq_ok_iff {site : CallSite} {t : Template} :
    site.compile = .ok t ↔ ∃ f, Markup.parse (String.ofList site.markup) = .ok f ∧
      Gap.occupyAll site.gapCount ((f.gapDescriptors 0).flatMap Descriptor.gapNumbers) = .ok () ∧
      t = ⟨some (.ofFragment (f.map Forest.withoutGaps)), f.gapDescriptors 0⟩ := by
  unfold compile
  cases Markup.parse (String.ofList site.markup) with
  | error e => simp
  | ok f =>
    cases h : Gap.occupyAll site.gapCount ((f.gapDescriptors 0).flatMap Descriptor.gapNumbers) with
    | error e => simp [h]
    | ok u => simp [h, eq_comm]

/-- A call site is compiled if its markup is what trees are printed to whose gaps are in order. -/
theorem CallSite.compile_of_printable {site : CallSite} {f : Forest Content} (hf : f.Printable)
    (hmarkup : String.ofList site.markup = f.toMarkup)
    (hgaps : Gap.occupyAll site.gapCount ((f.gapDescriptors 0).flatMap Descriptor.gapNumbers) =
      .ok ()) :
    site.compile = .ok ⟨some (.ofFragment (f.map Forest.withoutGaps)), f.gapDescriptors 0⟩ := by
  refine compile_eq_ok_iff.2 ⟨f, ?_, hgaps, rfl⟩
  rw [hmarkup, Markup.parse_toMarkup hf]

/-- **The skeleton of a written template can be written**, and its descriptors fit it. -/
theorem Template.Authored.exists_skeleton {t : Template} (h : t.Authored) :
    ∃ k : Forest Content, t.skeleton = some (.ofFragment k) ∧ k.Writable ∧
      ∀ s ∈ t.descriptors, s.Fits (.ofFragment k) := by
  cases h with
  | ofMarkup h =>
    obtain ⟨f, hp, rfl⟩ := Template.ofMarkup_eq_ok_iff.1 h
    exact ⟨f.skeleton, rfl, Forest.writable_skeleton (Markup.printable_of_parse hp).writable,
      Forest.fits_descriptors f .fragment .nil⟩
  | ofCallSite h =>
    obtain ⟨f, hp, -, rfl⟩ := CallSite.compile_eq_ok_iff.1 h
    exact ⟨f.map Forest.withoutGaps, rfl,
      Forest.writable_withoutGaps (Markup.printable_of_parse hp).writable,
      Forest.fits_gapDescriptors f .fragment .nil⟩

/-! ## Instances and what they hold -/

/-- The instance of the template holds the data, if any: it was made with it or updated with it
last, and whatever else was done to the document left the tree of the instance alone. -/
inductive Template.BoundTo (t : Template) (i : Instance) : Document → Option Value → Prop
  /-- The instance was made. Data that is absent is not written. -/
  | instantiate {d d' : Document} (data : Option Value) (hd : d.WellFormed)
      (h : t.instantiate d data = (d', .ok i)) : BoundTo t i d' (data.filter fun v => !v.isNull)
  /-- The instance was updated. -/
  | update {d : Document} {data : Option Value} (h : BoundTo t i d data) (v : Value) :
      BoundTo t i (d.update i.updater v) (some v)
  /-- Something else was done to the document. -/
  | elsewhere {d d' : Document} {data : Option Value} (h : BoundTo t i d data)
      (hd : d'.WellFormed) (hi : d'.tree? i.root = d.tree? i.root) : BoundTo t i d' data

/-- The tree filled with the data, if there is any. -/
def Tree.filled (data : Option Value) (ss : List Descriptor) (t : Tree Content) : Tree Content :=
  data.elim t fun v => t.fill v ss

/-- Bindings depend on the tree under the root alone. -/
theorem Document.Attached.of_tree?_eq {d d' : Document} {i : Instance} {ss : List Descriptor}
    (h : d.Attached i ss) (hd : d'.WellFormed) (hi : d'.tree? i.root = d.tree? i.root) :
    d'.Attached i ss :=
  ⟨hd, Document.bindAll_congr (fun _ _ _ hx => by rwa [nodeAt, hi]) h.bound⟩

/-- **An instance is its skeleton filled with the last data**, and stays bound to its nodes. -/
theorem Template.BoundTo.attached {t : Template} {k : Tree Content} (hk : t.skeleton = some k)
    (hfits : ∀ s ∈ t.descriptors, s.Fits k) {i : Instance} {d : Document} {data : Option Value}
    (h : t.BoundTo i d data) :
    d.Attached i t.descriptors ∧ d.shape? i.root = some (k.filled data t.descriptors) := by
  induction h with
  | @instantiate d d' data hd h =>
    obtain ⟨d₂, i₂, h₂, hattached, hshape⟩ :=
      instantiate_attached hk (fun s hs => (hfits s hs).reaches) hd data
    obtain ⟨rfl, hi⟩ := Prod.mk.inj (h₂.symm.trans h)
    obtain rfl := Except.ok.inj hi
    refine ⟨hattached, hshape.trans (congrArg some ?_)⟩
    cases data with
    | none => rfl
    | some v => cases hv : v.isNull <;> simp [Tree.fillGiven, Tree.filled, Option.filter, hv]
  | @update d data h v ih =>
    obtain ⟨hattached, hshape⟩ := ih
    refine ⟨hattached.update v, ?_⟩
    rw [hattached.shape?_update v, hshape, Option.map_some]
    cases data with
    | none => rfl
    | some w => exact congrArg some (Tree.fill_fill v w t.descriptors k)
  | elsewhere h hd hi ih =>
    obtain ⟨hattached, hshape⟩ := ih
    refine ⟨hattached.of_tree?_eq hd hi, ?_⟩
    unfold Document.shape?
    rw [hi]
    exact hshape

/-! ## The markup of an instance -/

/-- The markup of a forest is that of its trees, one after the other. -/
theorem Forest.join_toMarkup (f : Forest Content) :
    String.join (f.trees.map Tree.toMarkup) = f.toMarkup := by
  induction f with
  | nil => rfl
  | cons a below beside _ ih =>
    have hsplit : Forest.cons a below beside = (Tree.mk a below).toForest ++ beside := rfl
    rw [trees, List.map_cons, String.join_cons, ih, hsplit]
    simp only [Tree.toMarkup, Forest.toMarkup, Markup.print_append, String.ofList_append]

theorem Document.instanceNodes_of_fragment {d : Document} {i : Instance} {f : Forest Content}
    (h : d.shape? i.root = some (.ofFragment f)) : d.instanceNodes i = d.children i.root := by
  obtain ⟨n, hn, hshape⟩ := Option.map_eq_some_iff.1 h
  have hroot : d.content? i.root = some .fragment := by
    rw [content?, hn]
    exact congrArg (fun t => some t.label) hshape
  rw [instanceNodes, hroot]

/-- The markup of a fragment's children, one after the other, is that of the fragment. -/
theorem Document.instanceMarkup_of_fragment {d : Document} (hd : d.WellFormed) {i : Instance}
    {f : Forest Content} (h : d.shape? i.root = some (.ofFragment f)) :
    d.instanceMarkup i = f.toMarkup := by
  have htrees : (d.children i.root).map (fun h => ((d.shape? h).map Tree.toMarkup).getD "") =
      f.trees.map Tree.toMarkup := by
    have := congrArg (List.map fun s => (s.map Tree.toMarkup).getD "") (hd.map_shape?_children h)
    rwa [List.map_map, List.map_map] at this
  rw [instanceMarkup, markupOf, instanceNodes_of_fragment h, htrees, Forest.join_toMarkup]

/-- **Data injects no markup.** Whatever data an instance of a written template holds, its markup is
read back as the instance itself, which is the skeleton filled with the data, apart from empty texts
and borders between texts. So every value and every character of a text is read back as it was
filled in, and the elements and comments are those of the skeleton. -/
theorem reparse_instance {t : Template} (ht : t.Authored) {i : Instance} {d : Document}
    {data : Option Value} (h : t.BoundTo i d data) :
    ∃ k f : Forest Content, t.skeleton = some (.ofFragment k) ∧
      d.shape? i.root = some (.ofFragment f) ∧
      (Tree.ofFragment k).filled data t.descriptors = .ofFragment f ∧
      Markup.parse (d.instanceMarkup i) = .ok f.merged ∧
      f.merged.withoutTexts = f.withoutTexts ∧ f.merged.textContent = f.textContent ∧
      f.outline = k.outline := by
  obtain ⟨k, hk, hwritable, hfits⟩ := ht.exists_skeleton
  obtain ⟨hattached, hshape⟩ := h.attached hk hfits
  have hblank : ((Tree.ofFragment k).filled data t.descriptors).map Content.blank =
      (Tree.ofFragment k).map Content.blank := by
    cases data with
    | none => rfl
    | some v => exact Tree.map_blank_fill hfits v
  obtain ⟨f, hfilled⟩ : ∃ f, (Tree.ofFragment k).filled data t.descriptors = .ofFragment f := by
    have hroot : ((Tree.ofFragment k).filled data t.descriptors).label = .fragment :=
      Content.blank_eq_fragment_iff.1 (congrArg Tree.label hblank)
    exact ⟨_, congrArg (Tree.mk · _) hroot⟩
  rw [hfilled] at hblank hshape
  have hf : f.map Content.blank = k.map Content.blank := congrArg Tree.children hblank
  have hfwritable : f.Writable := by
    rw [← Forest.writable_map_blank, hf, Forest.writable_map_blank]
    exact hwritable
  refine ⟨k, f, hk, hshape, hfilled, ?_, Forest.withoutTexts_merged f,
    Forest.textContent_merged hfwritable, Forest.outline_congr hf⟩
  rw [Document.instanceMarkup_of_fragment hattached.wellFormed hshape]
  exact Markup.parse_print hfwritable

/-- Markup that is filled into a value and into a text by an update. -/
theorem reparse_instance_bold :
    let f : Forest Content := .cons (.element { tag := "b", attributes := .ofList [("t", "{x}")] })
      (.cons (.text "{x}&{y}") .nil .nil) .nil
    let t := Template.ofTree (.ofFragment f)
    let v := Value.ofPairs [("x", .string "<i>\""), ("y", .string "lt;")]
    t.Authored ∧ ∃ i d, t.BoundTo i d (some v) ∧ Markup.parse (d.instanceMarkup i) =
      .ok (.cons (.element { tag := "b", attributes := .ofList [("t", "<i>\"")] })
        (.cons (.text "<i>\"&lt;") .nil .nil) .nil) := by
  intro f t v
  have hf : f.Printable := ⟨by decide, by decide⟩
  have ht : t.Authored :=
    .ofMarkup (Template.ofMarkup_eq_ok_iff.2 ⟨f, Markup.parse_toMarkup hf, rfl⟩)
  obtain ⟨k, hk, -, hfits⟩ := ht.exists_skeleton
  obtain ⟨d, i, hi, -, -⟩ := Template.instantiate_attached hk
    (fun s hs => (hfits s hs).reaches) Document.wellFormed_empty none
  have hbound : t.BoundTo i (d.update i.updater v) (some v) :=
    (Template.BoundTo.instantiate none Document.wellFormed_empty hi).update v
  refine ⟨ht, i, _, hbound, ?_⟩
  obtain ⟨k', g, hk', -, hfilled, hparse, -⟩ := reparse_instance ht hbound
  obtain rfl : f.skeleton = k' := congrArg Tree.children (Option.some.inj hk')
  have hg : g.merged = .cons (.element { tag := "b", attributes := .ofList [("t", "<i>\"")] })
      (.cons (.text "<i>\"&lt;") .nil .nil) .nil := by
    rw [show g = ((Tree.ofFragment f.skeleton).filled (some v) t.descriptors).children from
      congrArg Tree.children hfilled.symm]
    decide +kernel
  rw [hparse, hg]

end MarkupTemplate
