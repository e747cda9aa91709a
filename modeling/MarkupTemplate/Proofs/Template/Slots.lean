import MarkupTemplate.Proofs.Template.Fit

/-!
# Descriptors are the placeholders

The descriptors of a template are the placeholders of its source, as one meets them on a walk
through the source in document order. Their addresses are those of the places that the skeleton
keeps for them.

Addresses are put together level by level: what a child was compiled to is nested if it is one tree,
and shifted if it is spliced in (`Forest.descriptors_cons`). So the places that the descriptors of
siblings start with lie in intervals one after the other (`Forest.within_descriptors`), and from
that comes the order of all addresses.

Results:
* `Forest.map_target_descriptors`: descriptors are the placeholders in document order.
* `Forest.pairwise_descriptors`: they come in the order of their addresses.
* `WellFormed.pairwise_bindAll`: so no two of them are bound to the same text or attribute.
* `descriptors_are_placeholders`: all of this of the template of a node.
-/

namespace MarkupTemplate

/-! ## The placeholders of a source -/

/-- The nodes that are compiled, in document order: all but those under texts and comments. -/
def Forest.compiled : Forest Content → List Content
  | nil => []
  | cons a below beside =>
    match a with
    | .text _ | .comment _ => a :: beside.compiled
    | .element _ | .fragment => a :: (below.compiled ++ beside.compiled)

/-- What data is written to at a node: each placeholder of a text, and each attribute that has a
placeholder. -/
def Content.targets : Content → List Target
  | text s => (tokenize s).filterMap fun
      | .static _ => none
      | .expression path => some (.textContent path)
  | element e => (e.attributes.entries.filter fun a => (tokenize a.2).any Token.isExpression).map
      fun a => .attributeValue a.1 (tokenize a.2)
  | comment _ | fragment => []

/-- What data is written to in a source tree, in document order. -/
def Tree.targets (t : Tree Content) : List Target :=
  t.toForest.compiled.flatMap Content.targets

theorem Descriptor.map_target_nested (ss : List Descriptor) (place : Nat) :
    (ss.map (·.nested place)).map target = ss.map target := by
  rw [List.map_map]
  rfl

theorem map_target_textDescriptors (offset : Nat) (tokens : List Token) :
    (textDescriptors offset tokens).map Descriptor.target = tokens.filterMap fun
      | .static _ => none
      | .expression path => some (.textContent path) := by
  induction tokens generalizing offset with
  | nil => rfl
  | cons t tokens ih =>
    cases t with
    | static s => exact ih (offset + 1)
    | expression path => exact congrArg (Target.textContent path :: ·) (ih (offset + 1))

theorem Element.map_target_descriptors (e : Element) :
    e.descriptors.map Descriptor.target = (Content.element e).targets := by
  rw [descriptors, List.map_map]
  rfl

/-- **Descriptors are the placeholders in document order.** -/
theorem Forest.map_target_descriptors (f : Forest Content) (offset : Nat) :
    (f.descriptors offset).map Descriptor.target = f.compiled.flatMap Content.targets := by
  induction f generalizing offset with
  | nil => rfl
  | cons a below beside ih₁ ih₂ =>
    cases a with
    | text s =>
      rw [compiled, List.flatMap_cons, descriptors, List.map_append, map_target_textDescriptors,
        ih₂]
      rfl
    | element e =>
      rw [compiled, List.flatMap_cons, List.flatMap_append, descriptors, List.map_append,
        Descriptor.map_target_nested, List.map_append, Element.map_target_descriptors, ih₁, ih₂,
        List.append_assoc]
    | comment s => exact ih₂ (offset + 1)
    | fragment =>
      rw [compiled, List.flatMap_cons, List.flatMap_append, descriptors, List.map_append,
        Descriptor.map_target_nested, ih₁, ih₂]
      rfl

/-! ## Level by level -/

/-- The descriptor when `offset` trees were put to the left of the root's children. -/
def Descriptor.shifted (s : Descriptor) (offset : Nat) : Descriptor :=
  { s with address := s.address.shifted offset }

namespace Parsed

/-- The trees that a source tree is compiled to. -/
def trees : Parsed → Forest Content
  | single t _ => t.toForest
  | spliced ts _ => ts

/-- The descriptors, relative to the one tree or to the parent of the trees. -/
def descriptors : Parsed → List Descriptor
  | single _ ss | spliced _ ss => ss

/-- The descriptors relative to the parent, where `offset` trees come before. -/
def rebased (offset : Nat) : Parsed → List Descriptor
  | single _ ss => ss.map (·.nested offset)
  | spliced _ ss => ss.map (·.shifted offset)

end Parsed

theorem map_shifted_textDescriptors (tokens : List Token) (place offset : Nat) :
    (textDescriptors place tokens).map (·.shifted offset) =
      textDescriptors (place + offset) tokens := by
  induction tokens generalizing place with
  | nil => rfl
  | cons t tokens ih =>
    have hrest := ih (place + 1)
    rw [Nat.add_right_comm] at hrest
    cases t with
    | static s => exact hrest
    | expression path => exact congrArg (_ :: ·) hrest

theorem Forest.skeleton_cons (a : Content) (below beside : Forest Content) :
    (cons a below beside).skeleton = (Tree.mk a below).parse.trees ++ beside.skeleton := by
  cases a <;> rfl

/-- **A source tree comes after what its left neighbours were compiled to.** -/
theorem Forest.descriptors_cons (a : Content) (below beside : Forest Content) (offset : Nat) :
    (cons a below beside).descriptors offset =
      (Tree.mk a below).parse.rebased offset ++
        beside.descriptors (offset + (Tree.mk a below).parse.trees.width) := by
  cases a with
  | text s =>
    have hshift := map_shifted_textDescriptors (tokenize s) 0 offset
    rw [Nat.zero_add] at hshift
    rw [descriptors, ← hshift, ← width_slots]
    rfl
  | element e => rfl
  | comment s => rfl
  | fragment => rfl

theorem Template.descriptors_ofTree (t : Tree Content) :
    (ofTree t).descriptors = t.parse.descriptors := by
  unfold ofTree
  cases t.parse <;> rfl

/-- The descriptors of a source tree are its placeholders. -/
theorem Tree.map_target_ofTree (t : Tree Content) :
    (Template.ofTree t).descriptors.map Descriptor.target = t.targets := by
  have hrebased : (t.parse.rebased 0).map Descriptor.target =
      t.parse.descriptors.map Descriptor.target := by
    cases t.parse with
    | single k ss => exact Descriptor.map_target_nested ss 0
    | spliced ks ss =>
      rw [Parsed.rebased, List.map_map]
      rfl
  rw [Template.descriptors_ofTree, ← hrebased, targets, ← t.toForest.map_target_descriptors 0,
    toForest, Forest.descriptors_cons, Forest.descriptors, List.append_nil]

/-! ## Order -/

/-- Two attributes with different names. -/
def Target.Apart : Target → Target → Prop
  | attributeValue name _, attributeValue name' _ => name ≠ name'
  | _, _ => False

/-- The first descriptor has the earlier address, or another attribute of the same element. -/
def Descriptor.Precedes (s s' : Descriptor) : Prop :=
  s.address.places < s'.address.places ∨ s.address = s'.address ∧ s.target.Apart s'.target

/-- The address starts with a place from `start` up to `stop`. -/
def Descriptor.Within (start stop : Nat) (s : Descriptor) : Prop :=
  ∃ place places, s.address.places = place :: places ∧ start ≤ place ∧ place < stop

theorem Descriptor.Within.mono {start start' stop stop' : Nat} {s : Descriptor}
    (h : s.Within start stop) (hstart : start' ≤ start) (hstop : stop ≤ stop') :
    s.Within start' stop' :=
  have ⟨place, places, hplaces, hle, hlt⟩ := h
  ⟨place, places, hplaces, Nat.le_trans hstart hle, Nat.lt_of_lt_of_le hlt hstop⟩

theorem Descriptor.Within.precedes {start middle stop : Nat} {s s' : Descriptor}
    (h : s.Within start middle) (h' : s'.Within middle stop) : s.Precedes s' := by
  obtain ⟨place, places, hs, -, hlt⟩ := h
  obtain ⟨place', places', hs', hle, -⟩ := h'
  refine .inl ?_
  rw [hs, hs', List.cons_lt_cons_iff]
  omega

/-- A node comes before all that is under it. -/
theorem Descriptor.Within.precedes_of_root {start stop : Nat} {s s' : Descriptor}
    (h : s'.Within start stop) (hs : s.address = .root) : s.Precedes s' := by
  obtain ⟨place, places, hs', -⟩ := h
  refine .inl ?_
  rw [hs, hs']
  exact List.nil_lt_cons place places

theorem Descriptor.within_map_nested (ss : List Descriptor) (place : Nat) :
    ∀ s ∈ ss.map (·.nested place), s.Within place (place + 1) := by
  intro s hs
  obtain ⟨s', -, rfl⟩ := List.mem_map.1 hs
  exact ⟨place, s'.address.places, rfl, Nat.le_refl _, Nat.lt_succ_self _⟩

theorem Descriptor.Precedes.nested {s s' : Descriptor} (h : s.Precedes s') (place : Nat) :
    (s.nested place).Precedes (s'.nested place) := by
  rcases h with h | ⟨h, hapart⟩
  · exact .inl (List.cons_lt_cons_iff.2 (.inr ⟨rfl, h⟩))
  · exact .inr ⟨congrArg (Address.nested · place) h, hapart⟩

theorem within_textDescriptors (tokens : List Token) (offset : Nat) :
    ∀ s ∈ textDescriptors offset tokens, s.Within offset (offset + tokens.length) := by
  induction tokens generalizing offset with
  | nil => exact fun s hs => absurd hs List.not_mem_nil
  | cons t tokens ih =>
    have hrest : ∀ s ∈ textDescriptors (offset + 1) tokens,
        s.Within offset (offset + (t :: tokens).length) := by
      intro s hs
      rw [List.length_cons]
      exact (ih (offset + 1) s hs).mono (Nat.le_succ offset) (by omega)
    intro s hs
    cases t with
    | static x => exact hrest s hs
    | expression path =>
      rcases List.mem_cons.1 hs with rfl | hs
      · exact ⟨offset, [], rfl, Nat.le_refl _, Nat.lt_add_of_pos_right (Nat.succ_pos _)⟩
      · exact hrest s hs

theorem Tree.within_rebased (t : Tree Content) (offset : Nat) :
    ∀ s ∈ t.parse.rebased offset, s.Within offset (offset + t.parse.trees.width) := by
  obtain ⟨a, below⟩ := t
  cases a with
  | text x =>
    intro s hs
    have hwithin := within_textDescriptors (tokenize x) offset s
    rw [← Nat.zero_add offset, ← map_shifted_textDescriptors, Nat.zero_add,
      ← width_slots] at hwithin
    exact hwithin hs
  | element e => exact Descriptor.within_map_nested _ offset
  | comment x => exact fun s hs => absurd hs List.not_mem_nil
  | fragment => exact Descriptor.within_map_nested _ offset

/-- **The descriptors of siblings start with the places of these siblings.** -/
theorem Forest.within_descriptors (f : Forest Content) (offset : Nat) :
    ∀ s ∈ f.descriptors offset, s.Within offset (offset + f.skeleton.width) := by
  induction f generalizing offset with
  | nil => exact fun s hs => absurd hs List.not_mem_nil
  | cons a below beside _ ih =>
    intro s hs
    rw [skeleton_cons, width_append]
    rw [descriptors_cons, List.mem_append] at hs
    rcases hs with hs | hs
    · exact ((Tree.mk a below).within_rebased offset s hs).mono (Nat.le_refl _) (by omega)
    · exact (ih _ s hs).mono (Nat.le_add_right _ _) (by omega)

theorem pairwise_textDescriptors (tokens : List Token) (offset : Nat) :
    (textDescriptors offset tokens).Pairwise Descriptor.Precedes := by
  induction tokens generalizing offset with
  | nil => exact .nil
  | cons t tokens ih =>
    cases t with
    | static s => exact ih (offset + 1)
    | expression path =>
      refine List.pairwise_cons.2 ⟨fun s hs => ?_, ih (offset + 1)⟩
      have hself : Descriptor.Within offset (offset + 1) ⟨⟨[offset]⟩, .textContent path⟩ :=
        ⟨offset, [], rfl, Nat.le_refl _, Nat.lt_succ_self _⟩
      exact hself.precedes (within_textDescriptors tokens (offset + 1) s hs)

/-- The attributes of an element have different names. -/
theorem Element.pairwise_descriptors (e : Element) :
    e.descriptors.Pairwise Descriptor.Precedes := by
  unfold descriptors
  rw [List.pairwise_map]
  refine List.Pairwise.filter _ ?_
  refine (List.pairwise_map.1 e.attributes.nodup).imp fun hne => .inr ⟨rfl, hne⟩

/-- An element comes before all that is under it. -/
theorem Tree.pairwise_descriptors {t : Tree Content}
    (h : (t.children.descriptors 0).Pairwise Descriptor.Precedes) :
    t.parse.descriptors.Pairwise Descriptor.Precedes := by
  obtain ⟨a, below⟩ := t
  cases a with
  | text s => exact pairwise_textDescriptors (tokenize s) 0
  | element e =>
    refine List.pairwise_append.2 ⟨e.pairwise_descriptors, h, fun s hs s' hs' => ?_⟩
    obtain ⟨a, -, rfl⟩ := List.mem_map.1 hs
    exact (below.within_descriptors 0 s' hs').precedes_of_root rfl
  | comment s => exact .nil
  | fragment => exact h

theorem Tree.pairwise_rebased {t : Tree Content}
    (h : (t.children.descriptors 0).Pairwise Descriptor.Precedes) (offset : Nat) :
    (t.parse.rebased offset).Pairwise Descriptor.Precedes := by
  have hdescriptors := t.pairwise_descriptors h
  obtain ⟨a, below⟩ := t
  cases a with
  | text s =>
    have hshift : (Tree.mk (.text s) below).parse.rebased offset =
        textDescriptors (0 + offset) (tokenize s) :=
      map_shifted_textDescriptors (tokenize s) 0 offset
    rw [hshift]
    exact pairwise_textDescriptors (tokenize s) _
  | element e => exact hdescriptors.map _ fun s s' hs => hs.nested offset
  | comment s => exact .nil
  | fragment => exact hdescriptors.map _ fun s s' hs => hs.nested offset

/-- **Descriptors come in the order of their addresses.** -/
theorem Forest.pairwise_descriptors (f : Forest Content) (offset : Nat) :
    (f.descriptors offset).Pairwise Descriptor.Precedes := by
  induction f generalizing offset with
  | nil => exact .nil
  | cons a below beside ih₁ ih₂ =>
    rw [descriptors_cons, List.pairwise_append]
    refine ⟨Tree.pairwise_rebased (ih₁ 0) offset, ih₂ _, fun s hs s' hs' => ?_⟩
    exact ((Tree.mk a below).within_rebased offset s hs).precedes
      (beside.within_descriptors _ s' hs')

/-! ## Bindings -/

/-- Descriptors in the order of their addresses have different addresses, or name different
attributes. -/
theorem Descriptor.Precedes.apart {s s' : Descriptor} (h : s.Precedes s')
    (hs : s.address = s'.address) : s.target.Apart s'.target := by
  rcases h with hlt | ⟨-, hapart⟩
  · rw [hs] at hlt
    exact absurd hlt (List.lt_irrefl _)
  · exact hapart

/-- **No two descriptors are bound to the same text or attribute**, where they come in the order of
their addresses. -/
theorem Document.WellFormed.pairwise_bindAll {d : Document} (hd : d.WellFormed) {root : Handle}
    {ss : List Descriptor} (hs : ss.Pairwise Descriptor.Precedes) {bs : List Binding}
    (hb : d.bindAll root ss = .ok bs) :
    bs.Pairwise fun b b' => b.node = b'.node → b.target.Apart b'.target := by
  induction ss generalizing bs with
  | nil =>
    obtain rfl := Except.ok.inj hb
    exact .nil
  | cons s ss ih =>
    obtain ⟨x, rest, hx, hrest, rfl⟩ := bindAll_cons_eq_ok_iff.1 hb
    obtain ⟨hfirst, hss⟩ := List.pairwise_cons.1 hs
    refine List.pairwise_cons.2 ⟨fun b hmem hnode => ?_, ih hss hrest⟩
    obtain ⟨s', hs', hx', htarget⟩ := exists_of_mem_bindAll hrest hmem
    -- a node has one address
    have hsame : s.address = s'.address :=
      hd.nodeAt_inj hx (hx'.trans (congrArg Except.ok hnode.symm))
    rw [htarget]
    exact (hfirst s' hs').apart hsame

/-! ## The template of a node -/

/-- **The descriptors of a template are the placeholders of its source**, met in document order.
Each address leads to a place that the skeleton keeps for its descriptor: an empty text, or an
attribute that is there and empty. The addresses come in lexicographic order, where only attributes
of one element have the same address; and so no two descriptors are bound to the same text or
attribute, wherever there is a copy of the skeleton. -/
theorem descriptors_are_placeholders {source : Document} {n : Handle} {t : Tree Content}
    (hn : source.shape? n = some t) :
    let compiled := Template.ofNode source n
    ∃ k, compiled.skeleton = some k ∧
      compiled.descriptors.map Descriptor.target = t.targets ∧
      (∀ s ∈ compiled.descriptors,
        ∃ x, k.resolve s.address = .ok x ∧ s.target.Vacant x.label) ∧
      compiled.descriptors.Pairwise Descriptor.Precedes ∧
      ∀ (d : Document) (root : Handle), d.WellFormed → d.shape? root = some k →
        ∃ bs, d.bindAll root compiled.descriptors = .ok bs ∧
          bs.Pairwise fun b b' => b.node = b'.node → b.target.Apart b'.target := by
  intro compiled
  have hnode : compiled = Template.ofTree t := by
    simp only [compiled, Template.ofNode, hn]
    rfl
  obtain ⟨k, hk, hvacant⟩ := t.vacant_ofTree
  have horder : (Template.ofTree t).descriptors.Pairwise Descriptor.Precedes := by
    rw [Template.descriptors_ofTree]
    exact Tree.pairwise_descriptors (t.children.pairwise_descriptors 0)
  rw [hnode]
  refine ⟨k, hk, t.map_target_ofTree, fun s hs => (hvacant s hs).exists_resolve, horder,
    fun d root hd hroot => ?_⟩
  obtain ⟨bs, hbs⟩ := Document.exists_bindAll hroot fun s hs => (hvacant s hs).fits.reaches
  exact ⟨bs, hbs, hd.pairwise_bindAll horder hbs⟩

/-- A paragraph with placeholders in two of its three attributes, side by side in its text, not in a
comment, and in a nested element. -/
theorem descriptors_are_placeholders_paragraph :
    let p : Tree Content :=
      ⟨.element { tag := "p", attributes := .ofList [("t", "{a}!"), ("l", "-"), ("c", "{b}")] },
        .cons (.text "x{c}{d}") .nil (.cons (.comment "{n}") .nil
          (.cons (.element { tag := "b" }) (.cons (.text "{e}") .nil .nil) .nil))⟩
    let source := (Document.empty.plant p).1
    source.shape? 0 = some p ∧
      (Template.ofNode source 0).descriptors.map Descriptor.target =
        [.attributeValue "t" [.expression "a", .static "!"], .attributeValue "c" [.expression "b"],
          .textContent "c", .textContent "d", .textContent "e"] ∧
      (Template.ofNode source 0).descriptors.map (·.address.places) =
        [[], [], [1], [2], [4, 0]] ∧
      (Template.ofNode source 0).descriptors.Pairwise Descriptor.Precedes := by
  intro p source
  have hsource : source.shape? 0 = some p := by rfl
  obtain ⟨k, -, htargets, -, horder, -⟩ := descriptors_are_placeholders hsource
  refine ⟨hsource, ?_, by decide +kernel, horder⟩
  rw [htargets]
  decide +kernel

end MarkupTemplate
