import MarkupTemplate.Proofs.Template.Injection
import MarkupTemplate.Render

/-!
# Renderings do not remember

A template is rendered with one value after the other by updating one instance. Since an update
overwrites all that earlier data left (`Tree.fill_fill`), each rendering shows the skeleton filled
with its own value, as if it were the only one.

Absent data is the exception: an instance that is made with it is not filled at all, while an
instance that is updated with it is filled as from an empty record (`Tree.fill_null`).

Results:
* `updateEach_eq_map`: what an instance shows after each update is the skeleton filled with the
  value of that update.
* `render_eq`: the renderings of a template in terms of its skeleton.
* `render_forgets`: each rendering is that of its value alone.
-/

namespace MarkupTemplate

/-! ## Absent data -/

/-- Absent data and an empty record leave the same: nothing. -/
theorem Token.fill_null (t : Token) : t.fill .null = t.fill (.hash []) := by
  cases t with
  | static s => rfl
  | expression path =>
    have hmember : ∀ segment, Value.member? segment (.hash []) = none := by
      intro segment
      unfold Value.member?
      cases Numeral.signed? 10 segment.toList <;> rfl
    simp only [Token.fill, Value.at?]
    split
    · rfl
    · -- the first segment of the path leads nowhere in either value
      obtain ⟨s, rest, hs⟩ := List.exists_cons_of_ne_nil (Text.segments_ne_nil path.toList)
      rw [hs, List.map_cons, Value.follow?_cons, Value.follow?_cons, hmember]
      rfl

theorem Target.value_null (t : Target) : t.value .null = t.value (.hash []) := by
  cases t with
  | textContent e => exact Token.fill_null (.expression e)
  | attributeValue name tokens =>
    exact congrArg String.join (List.map_congr_left fun t _ => t.fill_null)

/-- Absent data is filled in as an empty record is. -/
theorem Tree.fill_null (ss : List Descriptor) (t : Tree Content) :
    t.fill .null ss = t.fill (.hash []) ss := by
  have hwrite : ∀ (t : Tree Content) (s : Descriptor),
      s.writeTo .null t = s.writeTo (.hash []) t := by
    intro t s
    have htarget : s.target.write? .null = s.target.write? (.hash []) := by
      unfold Target.write?
      rw [Target.value_null]
    rw [Descriptor.writeTo, Descriptor.writeTo, htarget]
  unfold fill
  congr 1
  funext t s
  exact hwrite t s

/-! ## What an instance shows -/

/-- The markup of an instance is that of the tree that the instance is. -/
theorem Document.instanceMarkup_of_shape {d : Document} (hd : d.WellFormed) {i : Instance}
    {t : Tree Content} (h : d.shape? i.root = some t) : d.instanceMarkup i = t.toMarkup := by
  obtain ⟨c, f⟩ := t
  by_cases hc : c = .fragment
  · subst hc
    rw [instanceMarkup_of_fragment hd h]
    exact (congrArg String.ofList (Markup.print_fragment f)).symm
  · have hcontent : d.content? i.root = some c := by
      obtain ⟨n, hn, hshape⟩ := Option.map_eq_some_iff.1 h
      rw [content?, hn, Option.map_some]
      exact congrArg (fun t => some (Tree.label t)) hshape
    have hnodes : d.instanceNodes i = [i.root] := by
      unfold instanceNodes
      rw [hcontent]
      cases c with
      | fragment => exact absurd rfl hc
      | element e => rfl
      | text s => rfl
      | comment s => rfl
    rw [instanceMarkup, hnodes, markupOf, List.map_singleton, h]
    simp

/-- **After each update an instance shows the skeleton filled with the value of that update**,
whatever it was filled with before. -/
theorem updateEach_eq_map {t : Template} {k : Tree Content} (hk : t.skeleton = some k)
    (hfits : ∀ s ∈ t.descriptors, s.Fits k) {i : Instance} {d : Document} {data : Option Value}
    (h : t.BoundTo i d data) (values : List Value) :
    updateEach i d values = values.map fun v => (k.fill v t.descriptors).toMarkup := by
  induction values generalizing d data with
  | nil => rfl
  | cons v rest ih =>
    have hnext : t.BoundTo i (d.update i.updater v) (some v) := h.update v
    obtain ⟨hattached, hshape⟩ := hnext.attached hk hfits
    have hfirst : (d.update i.updater v).instanceMarkup i = (k.fill v t.descriptors).toMarkup :=
      Document.instanceMarkup_of_shape hattached.wellFormed hshape
    rw [updateEach, hfirst, ih hnext, List.map_cons]

/-- The first rendering shows what the instance was made with, the others what it was updated
with. -/
theorem Template.renderings_eq {t : Template} {k : Tree Content} (hk : t.skeleton = some k)
    (hfits : ∀ s ∈ t.descriptors, s.Fits k) (values : List Value) :
    t.renderings values = .ok ((k.fillGiven values.head? t.descriptors).toMarkup ::
      values.tail.map fun v => (k.fill v t.descriptors).toMarkup) := by
  obtain ⟨d, i, hi, hattached, hshape⟩ := instantiate_attached hk
    (fun s hs => (hfits s hs).reaches) Document.wellFormed_empty values.head?
  unfold renderings
  rw [hi]
  simp only
  rw [Document.instanceMarkup_of_shape hattached.wellFormed hshape,
    updateEach_eq_map hk hfits (.instantiate values.head? Document.wellFormed_empty hi)]

/-! ## Renderings of markup -/

/-- **The renderings of a template in terms of its skeleton.** -/
theorem render_eq {text : String} {f : Forest Content} (hp : Markup.parse text = .ok f)
    (values : List Value) :
    let k := Tree.ofFragment f.skeleton
    let ss := f.descriptors 0
    render text values = .ok ((k.fillGiven values.head? ss).toMarkup ::
      values.tail.map fun v => (k.fill v ss).toMarkup) := by
  intro k ss
  have ht : Template.ofMarkup text = .ok (.ofTree (.ofFragment f)) :=
    Template.ofMarkup_eq_ok_iff.2 ⟨f, hp, rfl⟩
  have hfits : ∀ s ∈ ss, s.Fits k := Forest.fits_descriptors f .fragment .nil
  unfold render
  rw [ht]
  simp only
  rw [Template.renderings_eq (t := .ofTree (.ofFragment f)) (k := k) rfl hfits]
  rfl

/-- A single value that is not absent is filled in. -/
theorem render_singleton {text : String} {f : Forest Content} (hp : Markup.parse text = .ok f)
    {v : Value} (hv : v ≠ .null) :
    render text [v] =
      .ok [((Tree.ofFragment f.skeleton).fill v (f.descriptors 0)).toMarkup] := by
  rw [render_eq hp, List.head?_cons, Tree.fillGiven, if_neg fun h => hv (Value.isNull_iff.1 h)]
  rfl

/-- **Renderings do not remember.** Markup that can be read is rendered once for each value, and
once where there is none. Each rendering is the only one that its value alone would have; absent
data after the first value counts as an empty record, and absent data at the start, like none at
all, leaves the skeleton as it is. -/
theorem render_forgets {text : String} {f : Forest Content} (hp : Markup.parse text = .ok f)
    (values : List Value) :
    ∃ rs, render text values = .ok rs ∧ rs.length = max 1 values.length ∧
      (∀ (i : Nat) (v : Value), values[i]? = some v → v ≠ .null →
        ∃ r, render text [v] = .ok [r] ∧ rs[i]? = some r) ∧
      (∀ i : Nat, 1 ≤ i → values[i]? = some .null →
        ∃ r, render text [.hash []] = .ok [r] ∧ rs[i]? = some r) ∧
      (values = [] ∨ values[0]? = some .null →
        ∃ t k, Template.ofMarkup text = .ok t ∧ t.skeleton = some k ∧
          rs[0]? = some k.toMarkup) := by
  refine ⟨_, render_eq hp values, ?_, ?_, ?_, ?_⟩
  · cases values <;> simp
  · intro i v hi hv
    refine ⟨_, render_singleton hp hv, ?_⟩
    cases values with
    | nil => cases hi
    | cons w rest =>
      cases i with
      | zero =>
        obtain rfl : w = v := Option.some.inj hi
        rw [List.head?_cons, Tree.fillGiven, if_neg fun h => hv (Value.isNull_iff.1 h)]
        rfl
      | succ i =>
        rw [List.getElem?_cons_succ] at hi ⊢
        rw [List.tail_cons, List.getElem?_map, hi]
        rfl
  · intro i hpos hi
    refine ⟨_, render_singleton hp (v := .hash []) (fun h => by cases h), ?_⟩
    cases values with
    | nil => cases hi
    | cons w rest =>
      cases i with
      | zero => exact absurd hpos (Nat.not_succ_le_zero 0)
      | succ i =>
        rw [List.getElem?_cons_succ] at hi ⊢
        rw [List.tail_cons, List.getElem?_map, hi, Option.map_some, Tree.fill_null]
  · intro hstart
    refine ⟨_, _, Template.ofMarkup_eq_ok_iff.2 ⟨f, hp, rfl⟩, rfl, ?_⟩
    rcases hstart with rfl | hnull
    · rfl
    · rw [← List.head?_eq_getElem?] at hnull
      rw [hnull]
      rfl

/-- A paragraph that shows a name, then nothing, then another name. -/
theorem render_forgets_paragraph :
    let f : Forest Content := .cons (.element { tag := "p", attributes := .ofList [("t", "{a}")] })
      (.cons (.text "x{a}") .nil .nil) .nil
    let v := Value.ofPairs [("a", .string "<")]
    let w := Value.ofPairs [("b", .boolean true)]
    Markup.parse f.toMarkup = .ok f ∧ v ≠ .null ∧ w ≠ .null ∧
      ∃ r₀ r₁ r₂, render f.toMarkup [v, .null, w] = .ok [r₀, r₁, r₂] ∧
        render f.toMarkup [v] = .ok [r₀] ∧ render f.toMarkup [.hash []] = .ok [r₁] ∧
        render f.toMarkup [w] = .ok [r₂] := by
  intro f v w
  have hf : f.Printable := ⟨by decide, by decide⟩
  have hp : Markup.parse f.toMarkup = .ok f := Markup.parse_toMarkup hf
  have hv : v ≠ .null := by decide
  have hw : w ≠ .null := by decide
  obtain ⟨rs, hrs, hlen, hvalue, hnull, -⟩ := render_forgets hp [v, .null, w]
  obtain ⟨r₀, h₀, hr₀⟩ := hvalue 0 v rfl hv
  obtain ⟨r₁, h₁, hr₁⟩ := hnull 1 (Nat.le_refl 1) rfl
  obtain ⟨r₂, h₂, hr₂⟩ := hvalue 2 w rfl hw
  refine ⟨hp, hv, hw, r₀, r₁, r₂, ?_, h₀, h₁, h₂⟩
  match rs, hlen with
  | [a, b, c], _ =>
    obtain rfl := Option.some.inj hr₀
    obtain rfl := Option.some.inj hr₁
    obtain rfl := Option.some.inj hr₂
    exact hrs

end MarkupTemplate
