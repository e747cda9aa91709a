import MarkupTemplate.CallSite.Compile
import MarkupTemplate.Proofs.Attributes
import MarkupTemplate.Proofs.Template.Fill

/-!
# Descriptors that fit their skeleton

Compiling gives every text descriptor the address of an empty text, and every attribute descriptor
that of an element which has the attribute already, and has it empty. Data is then written where it
belongs: no comment is written to, no attribute is added, and no node changes its kind.

A skeleton is vacant at its descriptors. Filling ends that, but not that they fit: they go on naming
nodes that can take what is written.

Results:
* `Tree.vacant_ofTree`: the skeleton of a source tree is vacant at its descriptors.
* `Forest.vacant_gapDescriptors`: so is that of a call site.
* `Tree.fits_ofTree`, `Forest.fits_gapDescriptors`: hence they fit.
-/

namespace MarkupTemplate

/-- A node that can take what is written: a text takes text, and an element takes a value for an
attribute that it has. -/
def Target.Fits : Target → Content → Prop
  | textContent _, .text _ => True
  | attributeValue name _, .element e => name ∈ e.attributes.names
  | _, _ => False

/-- A node with nothing yet where it is written to: an empty text, or an element that has the
attribute and has it empty. -/
def Target.Vacant : Target → Content → Prop
  | textContent _, .text s => s = ""
  | attributeValue name _, .element e => e.attributes.get? name = some ""
  | _, _ => False

/-- The address names a node that can take what is written. -/
def Descriptor.Fits (t : Tree Content) (s : Descriptor) : Prop :=
  ∃ n, t.at? s.address.places = some n ∧ s.target.Fits n.label

/-- The address names a node with nothing yet where it is written to. -/
def Descriptor.Vacant (t : Tree Content) (s : Descriptor) : Prop :=
  ∃ n, t.at? s.address.places = some n ∧ s.target.Vacant n.label

theorem Descriptor.Fits.reaches {t : Tree Content} {s : Descriptor} (h : s.Fits t) :
    s.Reaches t :=
  have ⟨n, hn, _⟩ := h
  Option.isSome_iff_exists.2 ⟨n, hn⟩

theorem Target.Vacant.fits {t : Target} {c : Content} (h : t.Vacant c) : t.Fits c := by
  cases t with
  | textContent e => cases c with
    | text s => trivial
    | element e => exact absurd h id
    | comment s => exact absurd h id
    | fragment => exact absurd h id
  | attributeValue name tokens => cases c with
    | text s => exact absurd h id
    | element e =>
      obtain ⟨a, ha, -⟩ := Option.map_eq_some_iff.1 h
      have hname : a.1 = name := by simpa using List.find?_some ha
      exact hname ▸ List.mem_map_of_mem (List.mem_of_find?_eq_some ha)
    | comment s => exact absurd h id
    | fragment => exact absurd h id

theorem Descriptor.Vacant.fits {t : Tree Content} {s : Descriptor} (h : s.Vacant t) : s.Fits t :=
  have ⟨n, hn, hvacant⟩ := h
  ⟨n, hn, hvacant.fits⟩

theorem Descriptor.Vacant.exists_resolve {t : Tree Content} {s : Descriptor} (h : s.Vacant t) :
    ∃ x, t.resolve s.address = .ok x ∧ s.target.Vacant x.label :=
  have ⟨x, hx, hvacant⟩ := h
  ⟨x, Tree.resolve_eq_ok_iff.2 hx, hvacant⟩

/-! ## Part by part -/

/-- What is vacant in a tree is vacant in it as a child, wherever it stands among its siblings. -/
theorem Descriptor.Vacant.nested {t : Tree Content} {s : Descriptor} (h : s.Vacant t) (r : Content)
    (g f : Forest Content) :
    (s.nested g.width).Vacant ⟨r, g ++ .cons t.label t.children f⟩ := by
  obtain ⟨n, hn, hvacant⟩ := h
  have htree : (g ++ .cons t.label t.children f).tree? g.width = some t :=
    Forest.tree?_append_width g (.cons t.label t.children f) 0
  exact ⟨n, by rw [Descriptor.nested, Address.nested, Tree.at?_cons, htree]; exact hn, hvacant⟩

theorem Descriptor.vacant_map_nested {ss : List Descriptor} {t : Tree Content}
    (h : ∀ s ∈ ss, s.Vacant t) (r : Content) (g f : Forest Content) :
    ∀ s ∈ ss.map (·.nested g.width), s.Vacant ⟨r, g ++ .cons t.label t.children f⟩ := by
  intro s hs
  obtain ⟨s', hs', rfl⟩ := List.mem_map.1 hs
  exact (h s' hs').nested r g f

theorem vacant_textDescriptors (tokens : List Token) (r : Content) (g h : Forest Content) :
    ∀ s ∈ textDescriptors g.width tokens, s.Vacant ⟨r, g ++ (slots tokens ++ h)⟩ := by
  induction tokens generalizing g with
  | nil => exact fun s hs => absurd hs List.not_mem_nil
  | cons t tokens ih =>
    -- the slot of the first token joins the trees on the left
    have hrest : ∀ s ∈ textDescriptors (g.width + 1) tokens,
        s.Vacant ⟨r, g ++ (slots (t :: tokens) ++ h)⟩ := by
      intro s hs
      have := ih (g ++ .cons t.slot .nil .nil) s
        (by rw [Forest.width_append]; exact hs)
      rwa [Forest.append_assoc] at this
    cases t with
    | static x => exact hrest
    | expression e =>
      intro s hs
      rcases List.mem_cons.1 hs with rfl | hs
      · have hself : Descriptor.Vacant ⟨.text "", .nil⟩ ⟨.root, .textContent e⟩ :=
          ⟨_, rfl, rfl⟩
        exact hself.nested r g (slots tokens ++ h)
      · exact hrest s hs

/-- An attribute whose value is emptied is there, and empty. -/
theorem Attributes.get?_mapValues_empty {as : Attributes} {a : String × String}
    (ha : a ∈ as.entries) {f : String → String} (hf : f a.2 = "") :
    (as.mapValues f).get? a.1 = some "" := by
  have hmem : (a.1, "") ∈ (as.mapValues f).entries := by
    rw [entries_mapValues, ← hf]
    exact List.mem_map_of_mem ha
  exact get?_of_mem hmem

theorem Element.vacant_descriptors (e : Element) (below : Forest Content) :
    ∀ s ∈ e.descriptors, s.Vacant ⟨.element e.emptied, below⟩ := by
  intro s hs
  obtain ⟨a, ha, rfl⟩ := List.mem_map.1 hs
  obtain ⟨hmem, hplaceholder⟩ := List.mem_filter.1 ha
  exact ⟨_, rfl, Attributes.get?_mapValues_empty hmem (if_pos hplaceholder)⟩

/-! ## Source trees -/

/-- **The skeleton of a forest is vacant at its descriptors**, wherever it stands among other
trees. -/
theorem Forest.vacant_descriptors (f : Forest Content) (r : Content) (g : Forest Content) :
    ∀ s ∈ f.descriptors g.width, s.Vacant ⟨r, g ++ f.skeleton⟩ := by
  induction f generalizing r g with
  | nil => exact fun s hs => absurd hs List.not_mem_nil
  | cons a below beside ih₁ ih₂ =>
    have hbeside : ∀ left : Forest Content, ∀ s ∈ beside.descriptors (g.width + left.width),
        s.Vacant ⟨r, g ++ (left ++ beside.skeleton)⟩ := by
      intro left s hs
      have := ih₂ r (g ++ left) s (by rw [width_append]; exact hs)
      rwa [append_assoc] at this
    intro s hs
    cases a with
    | text x =>
      rcases List.mem_append.1 hs with hs | hs
      · exact vacant_textDescriptors (tokenize x) r g beside.skeleton s hs
      · exact hbeside (slots (tokenize x)) s (by rw [width_slots]; exact hs)
    | element e =>
      rcases List.mem_append.1 hs with hs | hs
      · refine Descriptor.vacant_map_nested (t := ⟨.element e.emptied, below.skeleton⟩)
          (fun s hs => ?_) r g beside.skeleton s hs
        rcases List.mem_append.1 hs with hs | hs
        · exact Element.vacant_descriptors e _ s hs
        · exact ih₁ _ nil s hs
      · exact hbeside (cons (.element e.emptied) below.skeleton nil) s hs
    | comment x => exact hbeside (cons (.comment x) nil nil) s hs
    | fragment =>
      rcases List.mem_append.1 hs with hs | hs
      · exact Descriptor.vacant_map_nested (t := ⟨.fragment, below.skeleton⟩) (ih₁ _ nil) r g
          beside.skeleton s hs
      · exact hbeside (cons .fragment below.skeleton nil) s hs

/-- **The skeleton of a source tree is vacant at its descriptors.** -/
theorem Tree.vacant_ofTree (t : Tree Content) : ∃ k, (Template.ofTree t).skeleton = some k ∧
    ∀ s ∈ (Template.ofTree t).descriptors, s.Vacant k := by
  obtain ⟨a, below⟩ := t
  cases a with
  | text x =>
    refine ⟨_, rfl, ?_⟩
    intro s hs
    have := vacant_textDescriptors (tokenize x) .fragment .nil .nil s hs
    rwa [Forest.append_nil] at this
  | element e =>
    refine ⟨_, rfl, ?_⟩
    intro s hs
    rcases List.mem_append.1 hs with hs | hs
    · exact Element.vacant_descriptors e _ s hs
    · exact Forest.vacant_descriptors below _ .nil s hs
  | comment x => exact ⟨_, rfl, fun s hs => absurd hs List.not_mem_nil⟩
  | fragment => exact ⟨_, rfl, Forest.vacant_descriptors below _ .nil⟩

theorem Forest.fits_descriptors (f : Forest Content) (r : Content) (g : Forest Content) :
    ∀ s ∈ f.descriptors g.width, s.Fits ⟨r, g ++ f.skeleton⟩ :=
  fun s hs => (f.vacant_descriptors r g s hs).fits

/-- **The descriptors of a source tree fit its skeleton.** -/
theorem Tree.fits_ofTree (t : Tree Content) : ∃ k, (Template.ofTree t).skeleton = some k ∧
    ∀ s ∈ (Template.ofTree t).descriptors, s.Fits k :=
  have ⟨k, hk, hvacant⟩ := t.vacant_ofTree
  ⟨k, hk, fun s hs => (hvacant s hs).fits⟩

/-! ## Call sites -/

theorem Forest.vacant_ownGaps (c : Content) (below : Forest Content) :
    ∀ s ∈ ownGaps c, s.Vacant ⟨withoutGaps c, below⟩ := by
  intro s hs
  cases c with
  | text x => cases hs
  | fragment => cases hs
  | comment x =>
    simp only [ownGaps] at hs
    split at hs
    · next gap hgap =>
      obtain rfl := List.mem_singleton.1 hs
      refine ⟨_, rfl, ?_⟩
      simp [withoutGaps, hgap, Target.Vacant]
    · cases hs
  | element e =>
    obtain ⟨a, ha, hs⟩ := List.mem_filterMap.1 hs
    obtain ⟨tokens, htokens, rfl⟩ := Option.map_eq_some_iff.1 hs
    exact ⟨_, rfl, Attributes.get?_mapValues_empty ha (if_pos (by rw [htokens]; rfl))⟩

/-- **The skeleton of a call site is vacant at its descriptors.** -/
theorem Forest.vacant_gapDescriptors (f : Forest Content) (r : Content) (g : Forest Content) :
    ∀ s ∈ f.gapDescriptors g.width, s.Vacant ⟨r, g ++ f.map withoutGaps⟩ := by
  induction f generalizing r g with
  | nil => exact fun s hs => absurd hs List.not_mem_nil
  | cons a below beside ih₁ ih₂ =>
    intro s hs
    rcases List.mem_append.1 hs with hs | hs
    · refine Descriptor.vacant_map_nested (t := ⟨withoutGaps a, below.map withoutGaps⟩)
        (fun s hs => ?_) r g (beside.map withoutGaps) s hs
      rcases List.mem_append.1 hs with hs | hs
      · exact vacant_ownGaps a _ s hs
      · exact ih₁ _ nil s hs
    · have := ih₂ r (g ++ cons (withoutGaps a) (below.map withoutGaps) nil) s
        (by rw [width_append]; exact hs)
      rwa [append_assoc] at this

/-- **The descriptors of a call site fit its skeleton.** -/
theorem Forest.fits_gapDescriptors (f : Forest Content) (r : Content) (g : Forest Content) :
    ∀ s ∈ f.gapDescriptors g.width, s.Fits ⟨r, g ++ f.map withoutGaps⟩ :=
  fun s hs => (f.vacant_gapDescriptors r g s hs).fits

end MarkupTemplate
