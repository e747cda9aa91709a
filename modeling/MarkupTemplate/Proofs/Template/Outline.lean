import MarkupTemplate.Proofs.Markup.Merge
import MarkupTemplate.Proofs.Template.Fit

/-!
# What data leaves alone

Data goes into texts and into attribute values. Blanking empties both, so a tree and the same tree
filled with data are blanked to one tree (`map_blank_fill`). Whatever depends on the blanked tree
alone then holds of the filled tree when it holds of the skeleton: that it can be written, and which
elements and comments it has.

Results:
* `Tree.map_blank_fill`: data changes texts and values only.
* `Forest.writable_map_blank`: whether trees can be written depends on neither.
* `Forest.outline_congr`: nor do the elements and comments.
* `Forest.withoutTexts_merged`, `Forest.textContent_merged`: merging texts leaves elements, values
  and comments alone, and the characters of the texts.
-/

namespace MarkupTemplate

/-- The element with every attribute emptied. -/
def Element.blank (e : Element) : Element :=
  { e with attributes := e.attributes.mapValues fun _ => "" }

/-- The node without what data can go into. -/
def Content.blank : Content → Content
  | element e => element e.blank
  | text _ => text ""
  | comment s => comment s
  | fragment => fragment

/-- The elements and comments of a forest. -/
def Forest.withoutTexts : Forest Content → Forest Content
  | nil => nil
  | cons a below beside =>
    match a with
    | .text _ => beside.withoutTexts
    | a => cons a below.withoutTexts beside.withoutTexts

/-- The elements, with the names of their attributes, and comments of a forest. -/
def Forest.outline (f : Forest Content) : Forest Content :=
  f.withoutTexts.map Content.blank

/-! ## Nodes -/

/-- Emptied attributes are their names. -/
theorem Attributes.mapValues_const_congr {a b : Attributes} (h : a.names = b.names) (s : String) :
    a.mapValues (fun _ => s) = b.mapValues fun _ => s := by
  have hentries : ∀ a : Attributes, (a.mapValues fun _ => s).entries = a.names.map (·, s) :=
    fun a => by rw [names, List.map_map]; rfl
  refine eq_of_entries ?_
  rw [hentries, hentries, h]

theorem Element.blank_congr {e e' : Element} (htag : e.tag = e'.tag) (hns : e.ns = e'.ns)
    (hnames : e.attributes.names = e'.attributes.names) : e.blank = e'.blank := by
  rw [blank, blank, Attributes.mapValues_const_congr hnames, htag, hns]

theorem Content.blank_eq_fragment_iff {c : Content} : c.blank = .fragment ↔ c = .fragment := by
  cases c <;> simp [blank]

theorem Element.printable_blank {e : Element} : e.blank.Printable ↔ e.Printable := by
  have hnames : e.blank.attributes.names = e.attributes.names := Attributes.names_mapValues _ _
  constructor
  · exact fun h => ⟨h.tag, h.ns, hnames ▸ h.names⟩
  · exact fun h => ⟨h.tag, h.ns, hnames.symm ▸ h.names⟩

theorem Target.fits_blank {t : Target} {c : Content} : t.Fits c.blank ↔ t.Fits c := by
  cases t with
  | textContent x => cases c <;> exact Iff.rfl
  | attributeValue name tokens =>
    cases c with
    | element e =>
      show name ∈ (e.attributes.mapValues _).names ↔ name ∈ e.attributes.names
      rw [Attributes.names_mapValues]
    | text s => exact Iff.rfl
    | comment s => exact Iff.rfl
    | fragment => exact Iff.rfl

/-- A node that can take what is written keeps all but its text and its values. -/
theorem Target.blank_write {t : Target} {c : Content} (h : t.Fits c) (v : Value) :
    ((t.write? v c).getD c).blank = c.blank := by
  cases t with
  | textContent x => cases c with
    | text s => rfl
    | element e => exact absurd h id
    | comment s => exact absurd h id
    | fragment => exact absurd h id
  | attributeValue name tokens => cases c with
    | text s => exact absurd h id
    | element e =>
      exact congrArg Content.element (Element.blank_congr rfl rfl (Attributes.names_set_of_mem h _))
    | comment s => exact absurd h id
    | fragment => exact absurd h id

/-! ## Filling -/

theorem Descriptor.fits_iff {t : Tree Content} {s : Descriptor} :
    s.Fits t ↔ ∃ c, t.label? s.address.places = some c ∧ s.target.Fits c := by
  constructor
  · rintro ⟨n, hn, hfit⟩
    exact ⟨n.label, by rw [Tree.label?, hn]; rfl, hfit⟩
  · rintro ⟨c, hc, hfit⟩
    obtain ⟨n, hn, rfl⟩ := Option.map_eq_some_iff.1 hc
    exact ⟨n, hn, hfit⟩

/-- What fits a tree depends on the blanked tree alone. -/
theorem Descriptor.fits_map_blank {t : Tree Content} {s : Descriptor} :
    s.Fits (t.map Content.blank) ↔ s.Fits t := by
  rw [fits_iff, fits_iff, Tree.label?_map]
  constructor
  · rintro ⟨c, hc, hfit⟩
    obtain ⟨c', hc', rfl⟩ := Option.map_eq_some_iff.1 hc
    exact ⟨c', hc', Target.fits_blank.1 hfit⟩
  · rintro ⟨c, hc, hfit⟩
    exact ⟨c.blank, by rw [hc]; rfl, Target.fits_blank.2 hfit⟩

theorem Descriptor.map_blank_writeTo {t : Tree Content} {s : Descriptor} (h : s.Fits t)
    (v : Value) : (s.writeTo v t).map Content.blank = t.map Content.blank := by
  obtain ⟨c, hc, hfit⟩ := fits_iff.1 h
  refine Tree.ext_label? ?_
  intro places
  rw [Tree.label?_map, Tree.label?_map, writeTo, Tree.label?_relabelAt]
  by_cases he : places = s.address.places
  · rw [if_pos he, he, hc, Option.map_some, Option.map_some, Option.map_some,
      Target.blank_write hfit]
  · rw [if_neg he]

/-- **Data changes texts and values only**, where the descriptors fit. -/
theorem Tree.map_blank_fill {t : Tree Content} {ss : List Descriptor} (h : ∀ s ∈ ss, s.Fits t)
    (v : Value) : (t.fill v ss).map Content.blank = t.map Content.blank := by
  induction ss generalizing t with
  | nil => rfl
  | cons s ss ih =>
    have hs : (s.writeTo v t).map Content.blank = t.map Content.blank :=
      Descriptor.map_blank_writeTo (h s List.mem_cons_self) v
    -- the other descriptors fit what is written, since it is blanked to the same tree
    have hrest : ∀ x ∈ ss, x.Fits (s.writeTo v t) := by
      intro x hx
      rw [← Descriptor.fits_map_blank, hs, Descriptor.fits_map_blank]
      exact h x (List.mem_cons_of_mem s hx)
    exact (ih hrest).trans hs

/-! ## What depends on the blanked trees alone -/

namespace Forest

theorem map_eq_nil_iff {f : Forest Content} {h : Content → Content} : f.map h = nil ↔ f = nil := by
  cases f <;> simp [map]

/-- **Whether trees can be written** depends on neither texts nor values. -/
theorem writable_map_blank {f : Forest Content} : (f.map Content.blank).Writable ↔ f.Writable := by
  induction f with
  | nil => exact Iff.rfl
  | cons a below beside ih₁ ih₂ =>
    refine and_congr ?_ ih₂
    cases a with
    | element e => exact and_congr Element.printable_blank ih₁
    | text s => exact map_eq_nil_iff
    | comment s => exact and_congr_right' map_eq_nil_iff
    | fragment => exact Iff.rfl

theorem withoutTexts_map_blank (f : Forest Content) :
    (f.map Content.blank).withoutTexts = f.outline := by
  induction f with
  | nil => rfl
  | cons a below beside ih₁ ih₂ =>
    cases a with
    | text s => exact ih₂
    | element e => exact congrArg₂ (cons (Content.element e).blank) ih₁ ih₂
    | comment s => exact congrArg₂ (cons (Content.comment s)) ih₁ ih₂
    | fragment => exact congrArg₂ (cons Content.fragment) ih₁ ih₂

/-- **The outline** depends on neither texts nor values. -/
theorem outline_congr {f g : Forest Content} (h : f.map Content.blank = g.map Content.blank) :
    f.outline = g.outline := by
  rw [← withoutTexts_map_blank, h, withoutTexts_map_blank]

/-! ## Merging texts -/

theorem withoutTexts_prependText (s : String) (f : Forest Content) :
    (prependText s f).withoutTexts = f.withoutTexts := by
  obtain ⟨t, below, beside, rfl, h⟩ | ⟨-, -, h⟩ | ⟨-, -, h⟩ := prependText_cases s f
  · rw [h]
    rfl
  · rw [h]
  · rw [h]
    rfl

/-- **Merging texts** leaves elements, with their values, and comments alone. -/
theorem withoutTexts_merged (f : Forest Content) : f.merged.withoutTexts = f.withoutTexts := by
  induction f with
  | nil => rfl
  | cons a below beside ih₁ ih₂ =>
    cases a with
    | text s => exact (withoutTexts_prependText s beside.merged).trans ih₂
    | element e => exact congrArg₂ (cons (.element e)) ih₁ ih₂
    | comment s => exact congrArg₂ (cons (.comment s)) ih₁ ih₂
    | fragment => exact congrArg₂ (cons .fragment) ih₁ ih₂

theorem textContent_cons (a : Content) (below beside : Forest Content) :
    (cons a below beside).textContent =
      a.ownText ++ (below.textContent ++ beside.textContent) := by
  simp [textContent, labels]

theorem textContent_prependText (s : String) (f : Forest Content) :
    (prependText s f).textContent = s ++ f.textContent := by
  obtain ⟨t, below, beside, rfl, h⟩ | ⟨-, hs, h⟩ | ⟨-, -, h⟩ := prependText_cases s f
  · rw [h, textContent_cons, textContent_cons, Content.ownText, Content.ownText,
      String.append_assoc]
  · rw [h, hs, String.empty_append]
  · rw [h, textContent_cons, Content.ownText]
    exact congrArg (s ++ ·) String.empty_append

/-- **Merging texts** keeps their characters. -/
theorem textContent_merged {f : Forest Content} (hf : f.Writable) :
    f.merged.textContent = f.textContent := by
  induction f with
  | nil => rfl
  | cons a below beside ih₁ ih₂ =>
    obtain ⟨ha, hbeside⟩ := hf
    cases a with
    | text s =>
      obtain rfl : below = nil := ha
      unfold merged
      rw [textContent_prependText, ih₂ hbeside, textContent_cons]
      exact congrArg (s ++ ·) (String.empty_append).symm
    | element e => rw [merged_cons rfl, textContent_cons, textContent_cons, ih₁ ha.2, ih₂ hbeside]
    | comment s =>
      obtain ⟨-, rfl⟩ := ha
      rw [merged_cons rfl, textContent_cons, textContent_cons, ih₂ hbeside]
      rfl
    | fragment => exact absurd ha id

end Forest

end MarkupTemplate
