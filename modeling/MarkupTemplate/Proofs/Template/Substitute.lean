import MarkupTemplate.Proofs.Attributes
import MarkupTemplate.Proofs.Template.Fit

/-!
# Compiling and binding is substituting

Data can be put into a source tree directly: every text falls into the texts of its tokens, and
every attribute value becomes the text that its tokens leave. Compiling the tree and filling the
skeleton at the addresses of its descriptors gives the same tree.

Results:
* `Forest.fill_descriptors`: the descriptors of a forest fill its skeleton and nothing beside it.
* `Tree.fill_ofTree`: a filled template is the source tree with the data substituted.
* `instantiate_eq_substitute`: so is each of its instances in a document.
-/

namespace MarkupTemplate

/-! ## Substitution -/

/-- The texts that tokens leave when they are filled from `v`. -/
def filledSlots (v : Value) (tokens : List Token) : Forest Content :=
  .ofTrees (tokens.map fun t => ⟨.text (t.fill v), .nil⟩)

/-- The element with `v` substituted in the value of every attribute. -/
def Element.substitute (v : Value) (e : Element) : Element :=
  { e with attributes := e.attributes.mapValues fun s => fillTokens v (tokenize s) }

/-- The forest with `v` substituted in every text and attribute value. What stands under texts
and comments is dropped. -/
def Forest.substitute (v : Value) : Forest Content → Forest Content
  | nil => nil
  | cons a below beside =>
    (match a with
      | .text s => filledSlots v (tokenize s)
      | .element e => cons (.element (e.substitute v)) (below.substitute v) nil
      | .comment s => cons (.comment s) nil nil
      | .fragment => cons .fragment (below.substitute v) nil) ++ beside.substitute v

/-- The tree with `v` substituted; the texts of a text get a fragment as their parent. -/
def Tree.substitute (v : Value) (t : Tree Content) : Tree Content :=
  match t.label with
  | .text s => .ofFragment (filledSlots v (tokenize s))
  | .element e => ⟨.element (e.substitute v), t.children.substitute v⟩
  | .comment s => ⟨.comment s, .nil⟩
  | .fragment => .ofFragment (t.children.substitute v)

/-! ## Texts -/

/-- Without a placeholder the tokens of a text are the text. -/
theorem fillTokens_tokensFrom (v : Value) {run cs : List Char}
    (h : (Placeholder.tokensFrom run cs).any Token.isExpression = false) :
    fillTokens v (Placeholder.tokensFrom run cs) = String.ofList (run.reverse ++ cs) := by
  fun_induction Placeholder.tokensFrom run cs with
  | case1 run =>
    unfold Placeholder.afterRun
    split
    · next hr => simp [fillTokens, hr]
    · simp [fillTokens]
  | case2 run c rest path after _ _ _ =>
    unfold Placeholder.afterRun at h
    split at h <;> simp [Token.isExpression] at h
  | case3 run c rest _ ih => simpa using ih h

theorem fillTokens_of_not_hasPlaceholder (v : Value) {s : String} (h : hasPlaceholder s = false) :
    fillTokens v (tokenize s) = s :=
  (fillTokens_tokensFrom v h).trans String.ofList_toList

/-! ## Filling part by part -/

namespace Tree

theorem fill_append (v : Value) (ss ss' : List Descriptor) (t : Tree Content) :
    t.fill v (ss ++ ss') = (t.fill v ss).fill v ss' :=
  List.foldl_append

/-- Descriptors under one child fill that child alone. -/
theorem fill_nested (v : Value) (ss : List Descriptor) (r : Content) (g : Forest Content)
    (t : Tree Content) (h : Forest Content) :
    (Tree.mk r (g ++ .cons t.label t.children h)).fill v (ss.map (·.nested g.width)) =
      ⟨r, g ++ .cons (t.fill v ss).label (t.fill v ss).children h⟩ := by
  induction ss generalizing t with
  | nil => rfl
  | cons s ss ih =>
    have hplace : Descriptor.writeTo v ⟨r, g ++ .cons t.label t.children h⟩ (s.nested g.width) =
        ⟨r, g ++ .cons (Descriptor.writeTo v t s).label (Descriptor.writeTo v t s).children h⟩ := by
      have := Forest.relabelAt_append (fun c => (s.target.write? v c).getD c) g
        (.cons t.label t.children h) s.address.places 0
      rw [Nat.add_zero, Forest.relabelAt_zero] at this
      exact congrArg (Tree.mk r) this
    rw [List.map_cons, fill, List.foldl_cons, hplace]
    exact ih (Descriptor.writeTo v t s)

end Tree

/-- The descriptors of a text fill its slots. -/
theorem fill_textDescriptors (v : Value) (tokens : List Token) (r : Content)
    (g h : Forest Content) :
    (Tree.mk r (g ++ (slots tokens ++ h))).fill v (textDescriptors g.width tokens) =
      ⟨r, g ++ (filledSlots v tokens ++ h)⟩ := by
  induction tokens generalizing g with
  | nil => rfl
  | cons t tokens ih =>
    -- the slot of the first token joins the trees that are left alone
    have hnext : ∀ c : Content, (g ++ .cons c .nil .nil).width = g.width + 1 := by
      intro c
      rw [Forest.width_append]; rfl
    have hshift : ∀ (c : Content) (f : Forest Content),
        g ++ .cons c .nil f = (g ++ .cons c .nil .nil) ++ f := by
      intro c f
      rw [Forest.append_assoc]; rfl
    cases t with
    | static s =>
      have := ih (g ++ .cons (.text s) .nil .nil)
      rw [hnext, ← hshift, ← hshift] at this
      exact this
    | expression e =>
      have hwrite := Tree.fill_nested v [⟨.root, .textContent e⟩] r g ⟨.text "", .nil⟩
        (slots tokens ++ h)
      have := ih (g ++ .cons (.text ((Token.expression e).fill v)) .nil .nil)
      rw [hnext, ← hshift, ← hshift] at this
      exact (congrArg (Tree.fill v (textDescriptors (g.width + 1) tokens)) hwrite).trans this

/-- The descriptors of an element's own attributes fill them. -/
theorem Element.fill_descriptors (v : Value) (e : Element) (below : Forest Content) :
    (Tree.mk (.element e.emptied) below).fill v e.descriptors =
      ⟨.element (e.substitute v), below⟩ := by
  have hfold : ∀ (as : List (String × String)) (a : Attributes),
      ((as.map fun a => (⟨.root, .attributeValue a.1 (tokenize a.2)⟩ : Descriptor)).foldl
          (Descriptor.writeTo v) ⟨.element { e with attributes := a }, below⟩) =
        ⟨.element { e with
          attributes := a.setAll (as.map fun a => (a.1, fillTokens v (tokenize a.2))) },
          below⟩ := by
    intro as
    induction as with
    | nil => exact fun _ => rfl
    | cons b as ih => exact fun a => ih (a.set b.1 (fillTokens v (tokenize b.2)))
  refine (hfold _ e.emptied.attributes).trans ?_
  refine congrArg (fun a => Tree.mk (.element { e with attributes := a }) below) ?_
  rw [Element.emptied, Attributes.setAll_mapValues hasPlaceholder
    (fun s => fillTokens v (tokenize s)) (fun _ => "")]
  refine Attributes.eq_of_entries (List.map_congr_left ?_)
  intro a _
  by_cases hp : hasPlaceholder a.2
  · simp [hp]
  · simp [hp, fillTokens_of_not_hasPlaceholder v (Bool.eq_false_iff.2 hp)]

/-! ## Trees -/

/-- **The descriptors of a forest fill its skeleton**, wherever it stands among other trees. -/
theorem Forest.fill_descriptors (v : Value) (f : Forest Content) (r : Content)
    (g : Forest Content) :
    (Tree.mk r (g ++ f.skeleton)).fill v (f.descriptors g.width) =
      ⟨r, g ++ f.substitute v⟩ := by
  induction f generalizing r g with
  | nil => rfl
  | cons a below beside ih₁ ih₂ =>
    -- after the first source tree, what it left joins the trees that are left alone
    have hbeside : ∀ left : Forest Content,
        (Tree.mk r (g ++ (left ++ beside.skeleton))).fill v
            (beside.descriptors (g.width + left.width)) =
          ⟨r, g ++ (left ++ beside.substitute v)⟩ := by
      intro left
      have := ih₂ r (g ++ left)
      rwa [width_append, append_assoc, append_assoc] at this
    cases a with
    | text s =>
      have hw : (filledSlots v (tokenize s)).width = (tokenize s).length := by
        simp [filledSlots, ← length_trees]
      simp only [skeleton, descriptors, substitute]
      rw [Tree.fill_append, fill_textDescriptors, ← hw, hbeside]
    | element e =>
      have hbelow : (Tree.mk (.element e.emptied) below.skeleton).fill v
          (e.descriptors ++ below.descriptors 0) =
            ⟨.element (e.substitute v), below.substitute v⟩ := by
        rw [Tree.fill_append, Element.fill_descriptors]
        exact ih₁ _ nil
      simp only [skeleton, descriptors, substitute, cons_append, nil_append]
      rw [Tree.fill_append]
      refine (congrArg _ (Tree.fill_nested v _ r g ⟨_, _⟩ beside.skeleton)).trans ?_
      rw [hbelow]
      exact hbeside (cons (.element (e.substitute v)) (below.substitute v) nil)
    | comment s => exact hbeside (cons (.comment s) nil nil)
    | fragment =>
      simp only [skeleton, descriptors, substitute, cons_append, nil_append]
      rw [Tree.fill_append]
      refine (congrArg _ (Tree.fill_nested v _ r g ⟨_, _⟩ beside.skeleton)).trans ?_
      rw [show (Tree.mk Content.fragment below.skeleton).fill v (below.descriptors 0) =
        ⟨.fragment, below.substitute v⟩ from ih₁ _ nil]
      exact hbeside (cons .fragment (below.substitute v) nil)

/-- **A filled template is the source tree with the data substituted.** -/
theorem Tree.fill_ofTree (v : Value) (t : Tree Content) :
    (Template.ofTree t).skeleton.map (Tree.fill v (Template.ofTree t).descriptors) =
      some (t.substitute v) := by
  obtain ⟨a, below⟩ := t
  cases a with
  | text s =>
    have := fill_textDescriptors v (tokenize s) .fragment .nil .nil
    simp only [Forest.append_nil, Forest.nil_append] at this
    exact congrArg some this
  | element e =>
    have := Tree.fill_append v e.descriptors (below.descriptors 0)
      ⟨.element e.emptied, below.skeleton⟩
    rw [Element.fill_descriptors] at this
    exact congrArg some (this.trans (Forest.fill_descriptors v below _ .nil))
  | comment s => rfl
  | fragment => exact congrArg some (Forest.fill_descriptors v below _ .nil)

/-! ## Instances -/

/-- **Compiling and binding is substituting.** Every node of a source document is a template that
has an instance in every document, and the instance for the data `v` is the source tree with `v`
substituted. -/
theorem instantiate_eq_substitute {source : Document} {n : Handle} {t : Tree Content}
    (hn : source.shape? n = some t) {target : Document} (ht : target.WellFormed) {v : Value}
    (hv : v ≠ .null) :
    ∃ d i, (Template.ofNode source n).instantiate target (some v) = (d, .ok i) ∧
      d.shape? i.root = some (t.substitute v) := by
  have hnode : Template.ofNode source n = Template.ofTree t := by
    unfold Template.ofNode
    rw [hn]
    rfl
  obtain ⟨k, hk, hfit⟩ := t.fits_ofTree
  obtain ⟨d, i, hi, -, hshape⟩ :=
    Template.instantiate_attached hk (fun s hs => (hfit s hs).reaches) ht (some v)
  have hfill := t.fill_ofTree v
  rw [hk, Option.map_some, Option.some_inj] at hfill
  rw [Tree.fillGiven, if_neg (fun h => hv (Value.isNull_iff.1 h)), hfill] at hshape
  exact ⟨d, i, hnode ▸ hi, hshape⟩

/-- A paragraph whose text and attribute have placeholders, filled in an empty document. -/
theorem instantiate_eq_substitute_paragraph :
    let p : Tree Content := ⟨.element { tag := "p", attributes := .ofList [("title", "{a}!")] },
      .cons (.text "x{a}{b}") .nil .nil⟩
    let source := (Document.empty.plant p).1
    let v := Value.ofPairs [("a", .string "<"), ("b", .boolean true)]
    source.shape? 0 = some p ∧ Document.empty.WellFormed ∧ v ≠ .null ∧
      ∃ d i, (Template.ofNode source 0).instantiate .empty (some v) = (d, .ok i) ∧
        d.shape? i.root = some ⟨.element { tag := "p", attributes := .ofList [("title", "<!")] },
          .cons (.text "x") .nil (.cons (.text "<") .nil (.cons (.text "true") .nil .nil))⟩ := by
  intro p source v
  have hsource : source.shape? 0 = some p := by rfl
  have hv : v ≠ .null := by decide
  refine ⟨hsource, Document.wellFormed_empty, hv, ?_⟩
  have hfilled : p.substitute v = ⟨.element { tag := "p", attributes := .ofList [("title", "<!")] },
      .cons (.text "x") .nil (.cons (.text "<") .nil (.cons (.text "true") .nil .nil))⟩ := by
    decide +kernel
  rw [← hfilled]
  exact instantiate_eq_substitute hsource Document.wellFormed_empty hv

end MarkupTemplate
