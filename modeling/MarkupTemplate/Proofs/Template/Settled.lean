import MarkupTemplate.Proofs.Placeholder.Written
import MarkupTemplate.Proofs.Document.WellFormed

/-!
# Compiling a skeleton again

A skeleton has no placeholder: what stands between the placeholders of a text is not one by itself,
and every value that has one is emptied. So when a skeleton is compiled there is nothing to fill in,
and all that changes is that its empty texts, which have no token, are gone. After that nothing
changes any more.

Results:
* `Forest.plain_skeleton`: a skeleton has no placeholder.
* `Forest.Plain.skeleton_eq`, `Forest.Plain.descriptors_eq`: so it is compiled to itself without its
  empty texts.
* `skeletons_are_placeholder_free`: all of this of the template of a node.
-/

namespace MarkupTemplate

/-! ## Trees without empty texts -/

/-- The forest without the text nodes that are empty. -/
def Forest.withoutEmptyTexts : Forest Content → Forest Content
  | nil => nil
  | cons a below beside =>
    if a = .text "" then beside.withoutEmptyTexts
    else cons a below.withoutEmptyTexts beside.withoutEmptyTexts

/-- The tree without the text nodes under its root that are empty. -/
def Tree.withoutEmptyTexts (t : Tree Content) : Tree Content :=
  ⟨t.label, t.children.withoutEmptyTexts⟩

theorem Forest.withoutEmptyTexts_idem (f : Forest Content) :
    f.withoutEmptyTexts.withoutEmptyTexts = f.withoutEmptyTexts := by
  induction f with
  | nil => rfl
  | cons a below beside ih₁ ih₂ =>
    by_cases ha : a = .text ""
    · rw [withoutEmptyTexts, if_pos ha, ih₂]
    · rw [withoutEmptyTexts, if_neg ha, withoutEmptyTexts, if_neg ha, ih₁, ih₂]

theorem Tree.withoutEmptyTexts_idem (t : Tree Content) :
    t.withoutEmptyTexts.withoutEmptyTexts = t.withoutEmptyTexts :=
  congrArg (Tree.mk t.label) t.children.withoutEmptyTexts_idem

/-! ## Trees without placeholders -/

/-- The empty text has no token. -/
theorem tokenize_empty : tokenize "" = [] := by
  simp [tokenize, Placeholder.tokensFrom, Placeholder.afterRun]

/-- There is no placeholder at the node itself. -/
def Content.Plain : Content → Prop
  | text s => s ≠ "" → tokenize s = [.static s]
  | element e => ∀ a ∈ e.attributes.entries, hasPlaceholder a.2 = false
  | comment _ | fragment => True

/-- There is no placeholder, and nothing under texts and comments. -/
def Forest.Plain : Forest Content → Prop
  | nil => True
  | cons a below beside =>
    a.Plain ∧ (a.text? ≠ none → below = nil) ∧ below.Plain ∧ beside.Plain

theorem Forest.Plain.append {f g : Forest Content} (hf : f.Plain) (hg : g.Plain) :
    (f ++ g).Plain := by
  induction f with
  | nil => exact hg
  | cons a below beside _ ih =>
    obtain ⟨ha, hleaf, hbelow, hbeside⟩ := hf
    exact ⟨ha, hleaf, hbelow, ih hbeside⟩

theorem plain_slots {ts : List Token} (h : ∀ x, .static x ∈ ts → tokenize x = [.static x]) :
    (slots ts).Plain := by
  induction ts with
  | nil => trivial
  | cons t ts ih =>
    refine ⟨?_, fun _ => rfl, trivial, ih fun x hx => h x (List.mem_cons_of_mem t hx)⟩
    cases t with
    | static x => exact fun _ => h x List.mem_cons_self
    | expression path => exact fun hne => absurd rfl hne

theorem Element.plain_emptied (e : Element) : (Content.element e.emptied).Plain := by
  intro a ha
  obtain ⟨b, -, rfl⟩ := List.mem_map.1 ha
  dsimp only
  split
  · rw [hasPlaceholder, tokenize_empty, List.any_nil]
  · next hb => exact Bool.not_eq_true _ ▸ hb

/-- **A skeleton has no placeholder.** -/
theorem Forest.plain_skeleton (f : Forest Content) : f.skeleton.Plain := by
  induction f with
  | nil => trivial
  | cons a below beside ih₁ ih₂ =>
    refine Forest.Plain.append ?_ ih₂
    cases a with
    | text s => exact plain_slots fun x hx => tokenize_static hx
    | element e => exact ⟨e.plain_emptied, fun h => absurd rfl h, ih₁, trivial⟩
    | comment s => exact ⟨trivial, fun _ => rfl, trivial, trivial⟩
    | fragment => exact ⟨trivial, fun h => absurd rfl h, ih₁, trivial⟩

/-! ## Compiling without placeholders -/

theorem Element.emptied_eq_self {e : Element} (h : (Content.element e).Plain) : e.emptied = e := by
  obtain ⟨tag, ns, entries, nodup⟩ := e
  have hentries :
      entries.map (fun a => (a.1, if hasPlaceholder a.2 then "" else a.2)) = entries := by
    refine (List.map_congr_left fun a ha => ?_).trans (List.map_id entries)
    rw [h a ha]
    rfl
  simp only [emptied, Attributes.mapValues, hentries]

theorem Element.descriptors_eq_nil {e : Element} (h : (Content.element e).Plain) :
    e.descriptors = [] := by
  unfold descriptors
  rw [List.filter_eq_nil_iff.2 fun a ha => by rw [h a ha]; exact Bool.false_ne_true]
  rfl

/-- **Without placeholders only the empty texts go.** -/
theorem Forest.Plain.skeleton_eq {f : Forest Content} (hf : f.Plain) :
    f.skeleton = f.withoutEmptyTexts := by
  induction f with
  | nil => rfl
  | cons a below beside ih₁ ih₂ =>
    obtain ⟨ha, hleaf, hbelow, hbeside⟩ := hf
    rw [skeleton_cons, withoutEmptyTexts, ih₂ hbeside, Tree.parse]
    cases a with
    | text s =>
      obtain rfl := hleaf (Option.some_ne_none s)
      dsimp only
      by_cases hs : s = ""
      · subst hs
        rw [tokenize_empty, if_pos rfl]
        rfl
      · rw [ha hs, if_neg fun h => hs (Content.text.inj h)]
        rfl
    | element e =>
      dsimp only
      rw [Element.emptied_eq_self ha, ih₁ hbelow]
      rfl
    | comment s =>
      obtain rfl := hleaf (Option.some_ne_none s)
      rfl
    | fragment =>
      dsimp only
      rw [ih₁ hbelow]
      rfl

/-- **Without placeholders there is no descriptor.** -/
theorem Forest.Plain.descriptors_eq {f : Forest Content} (hf : f.Plain) (offset : Nat) :
    f.descriptors offset = [] := by
  induction f generalizing offset with
  | nil => rfl
  | cons a below beside ih₁ ih₂ =>
    obtain ⟨ha, -, hbelow, hbeside⟩ := hf
    have hrest : ∀ offset, beside.descriptors offset = [] := ih₂ hbeside
    cases a with
    | text s =>
      rw [descriptors, hrest, List.append_nil]
      by_cases hs : s = ""
      · subst hs
        rw [tokenize_empty]
        rfl
      · rw [ha hs]
        rfl
    | element e =>
      rw [descriptors, hrest, Element.descriptors_eq_nil ha, ih₁ hbelow]
      rfl
    | comment s => exact hrest (offset + 1)
    | fragment =>
      rw [descriptors, hrest, ih₁ hbelow]
      rfl

/-- There is no placeholder in the tree, and its root is not a text. -/
structure Tree.Plain (t : Tree Content) : Prop where
  /-- There is no placeholder. -/
  plain : t.toForest.Plain
  /-- The root is not a text. -/
  ne_text : ∀ s, t.label ≠ .text s

/-- The skeleton of a source tree has no placeholder, and its root is not a text. -/
theorem Tree.exists_plain_ofTree (t : Tree Content) :
    ∃ k, (Template.ofTree t).skeleton = some k ∧ k.Plain := by
  have hskeleton : ∀ {a : Content} {below beside : Forest Content},
      (Forest.cons a below beside).Plain → (∀ s, a ≠ .text s) → (Tree.mk a below).Plain :=
    fun ⟨ha, hleaf, hbelow, _⟩ htext => ⟨⟨ha, hleaf, hbelow, trivial⟩, htext⟩
  obtain ⟨a, below⟩ := t
  have hplain := (Forest.cons a below .nil).plain_skeleton
  cases a with
  | text s =>
    exact ⟨_, rfl, ⟨trivial, fun h => absurd rfl h, plain_slots fun x hx => tokenize_static hx,
      trivial⟩, fun _ => Content.noConfusion⟩
  | element e => exact ⟨_, rfl, hskeleton hplain fun _ => Content.noConfusion⟩
  | comment s => exact ⟨_, rfl, hskeleton hplain fun _ => Content.noConfusion⟩
  | fragment => exact ⟨_, rfl, hskeleton hplain fun _ => Content.noConfusion⟩

theorem Tree.Plain.withoutEmptyTexts {t : Tree Content} (ht : t.Plain) :
    t.withoutEmptyTexts.Plain := by
  obtain ⟨⟨ha, hleaf, hbelow, -⟩, htext⟩ := ht
  have hchildren : t.children.withoutEmptyTexts.Plain :=
    hbelow.skeleton_eq ▸ t.children.plain_skeleton
  exact ⟨⟨ha, fun h => congrArg Forest.withoutEmptyTexts (hleaf h), hchildren, trivial⟩, htext⟩

/-- **A tree without placeholders is compiled to itself** without its empty texts. -/
theorem Tree.Plain.ofTree {t : Tree Content} (ht : t.Plain) :
    Template.ofTree t = ⟨some t.withoutEmptyTexts, []⟩ := by
  obtain ⟨a, below⟩ := t
  obtain ⟨⟨ha, hleaf, hbelow, -⟩, htext⟩ := ht
  rw [Template.ofTree, Tree.parse]
  cases a with
  | text s => exact absurd rfl (htext s)
  | element e =>
    dsimp only
    rw [hbelow.skeleton_eq, hbelow.descriptors_eq, Element.descriptors_eq_nil ha,
      Element.emptied_eq_self ha]
    rfl
  | comment s =>
    obtain rfl := hleaf (Option.some_ne_none s)
    rfl
  | fragment =>
    dsimp only
    rw [hbelow.skeleton_eq, hbelow.descriptors_eq]
    rfl

/-! ## The template of a node -/

/-- **Compiling a skeleton finds no placeholder.** Wherever there is a copy of a template's
skeleton, the template of that copy has no descriptor, and its skeleton is the first one without its
empty texts. Compiling a copy of that changes nothing: the template has the same skeleton, and no
descriptor either. This holds of the template of any node, even of one that is gone. -/
theorem skeletons_are_placeholder_free (source : Document) (n : Handle) :
    ∃ k, (Template.ofNode source n).skeleton = some k ∧
      ∀ (d : Document) (h : Handle),
        (d.shape? h = some k → Template.ofNode d h = ⟨some k.withoutEmptyTexts, []⟩) ∧
        (d.shape? h = some k.withoutEmptyTexts →
          Template.ofNode d h = ⟨some k.withoutEmptyTexts, []⟩) := by
  obtain ⟨k, hk, hplain⟩ : ∃ k, (Template.ofNode source n).skeleton = some k ∧ k.Plain := by
    unfold Template.ofNode
    cases source.shape? n with
    | none =>
      exact ⟨.ofFragment .nil, rfl, ⟨trivial, fun h => absurd rfl h, trivial, trivial⟩,
        fun _ => Content.noConfusion⟩
    | some t => exact t.exists_plain_ofTree
  refine ⟨k, hk, fun d h => ⟨fun hd => ?_, fun hd => ?_⟩⟩
  · rw [Template.ofNode, hd]
    exact hplain.ofTree
  · have hagain := hplain.withoutEmptyTexts.ofTree
    rw [k.withoutEmptyTexts_idem] at hagain
    rw [Template.ofNode, hd]
    exact hagain

/-- Of the texts around the placeholders, which would be one if they were next to each other, those
that are not empty are left. -/
theorem skeletons_are_placeholder_free_split :
    let source := (Document.empty.plant
      ⟨.element { tag := "p", attributes := .ofList [("t", "{a}!"), ("l", "{1}")] },
        .cons (.text "\x7ba\x7bb\x7d\x7d") .nil (.cons (.text "{c}") .nil .nil)⟩).1
    let p := Content.element { tag := "p", attributes := .ofList [("t", ""), ("l", "{1}")] }
    let k : Tree Content := ⟨p, .cons (.text "\x7ba") .nil (.cons (.text "") .nil
      (.cons (.text "\x7d") .nil (.cons (.text "") .nil .nil)))⟩
    let settled : Tree Content :=
      ⟨p, .cons (.text "\x7ba") .nil (.cons (.text "\x7d") .nil .nil)⟩
    (Template.ofNode source 0).skeleton = some k ∧ k.withoutEmptyTexts = settled ∧
      Template.ofNode (Document.empty.plant k).1 0 = ⟨some settled, []⟩ ∧
      Template.ofNode (Document.empty.plant settled).1 0 = ⟨some settled, []⟩ := by
  intro source p k settled
  have hk : (Template.ofNode source 0).skeleton = some k := by decide +kernel
  have hsettled : k.withoutEmptyTexts = settled := by decide +kernel
  obtain ⟨k', hk', hagain⟩ := skeletons_are_placeholder_free source 0
  obtain rfl : k = k' := Option.some.inj (hk.symm.trans hk')
  rw [hsettled] at hagain
  exact ⟨hk, hsettled, (hagain _ 0).1 rfl, (hagain _ 0).2 rfl⟩

end MarkupTemplate
