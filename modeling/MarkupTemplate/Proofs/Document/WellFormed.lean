import MarkupTemplate.Descriptor
import MarkupTemplate.Proofs.Document.Place

/-!
# Well-formed documents

In a well-formed document no handle is there twice, and the handles still to be given are new.
Planting a tree and writing to nodes keep a document well-formed.

Results:
* `WellFormed.plant`, `WellFormed.writeNode`: the document stays well-formed.
* `WellFormed.content?_eq_some_iff`: what a node is can be read off the labels of the trees.
* `shape?_plant`: a planted tree is found under its new handle.
* `WellFormed.nodeAt_inj`: a node has one address from a root.
* `shape?_writeNode`: what is written to a node is written at its place under every root.
* `nodeAt_writeNode`: writing moves no node, so addresses keep their meaning.
-/

namespace MarkupTemplate

namespace Document

/-- No handle is there twice, and every handle was given before. -/
structure WellFormed (d : Document) : Prop where
  /-- Every node has a handle of its own. -/
  nodup : d.forest.handles.Nodup
  /-- The handles to be given are new. -/
  fresh : ∀ h ∈ d.forest.handles, h < d.next

theorem wellFormed_empty : empty.WellFormed where
  nodup := List.nodup_nil
  fresh := fun _ h => absurd h List.not_mem_nil

theorem nodup_handles_of_tree? {d : Document} (hd : d.WellFormed) {r : Handle} {t : Tree Node}
    (ht : d.tree? r = some t) : t.handles.Nodup :=
  hd.nodup.sublist (Forest.handles_sublist_of_find? ht)

theorem mem_labels_of_content? {d : Document} {h : Handle} {c : Content}
    (hc : d.content? h = some c) : ⟨h, c⟩ ∈ d.forest.labels := by
  obtain ⟨t, ht, rfl⟩ := Option.map_eq_some_iff.1 hc
  have hlabel : t.label ∈ d.forest.labels :=
    (Forest.labels_sublist_of_find? ht).subset List.mem_cons_self
  rwa [← Forest.handle_of_find? ht]

/-- **A handle names one node.** -/
theorem WellFormed.content?_eq_some_iff {d : Document} (hd : d.WellFormed) {h : Handle}
    {c : Content} : d.content? h = some c ↔ ⟨h, c⟩ ∈ d.forest.labels := by
  refine ⟨mem_labels_of_content?, fun hn => ?_⟩
  have hlabel := congrArg (Option.map Node.content) (Forest.label_of_find? hd.nodup hn)
  rwa [Option.map_map] at hlabel

/-! ## Planting -/

theorem handles_plant (d : Document) (t : Tree Content) :
    (d.plant t).1.forest.handles =
      d.forest.handles ++ List.range' d.next t.toForest.labels.length := by
  rw [plant, Forest.handles_append, Forest.handles_number]

theorem next_plant (d : Document) (t : Tree Content) :
    (d.plant t).1.next = d.next + t.toForest.labels.length := by
  simp [plant, Tree.toForest, Forest.labels, Tree.labels]

/-- **A planted tree has new handles**, all different. -/
theorem WellFormed.plant {d : Document} (hd : d.WellFormed) (t : Tree Content) :
    (d.plant t).1.WellFormed where
  nodup := by
    rw [handles_plant, List.nodup_append]
    refine ⟨hd.nodup, List.nodup_range', ?_⟩
    rintro x hx y hy rfl
    exact absurd (hd.fresh x hx) (Nat.not_lt.2 (List.mem_range'_1.1 hy).1)
  fresh := by
    intro h hh
    rw [handles_plant, List.mem_append, List.mem_range'_1] at hh
    rw [next_plant]
    rcases hh with hh | ⟨-, hh⟩
    · exact Nat.lt_add_right _ (hd.fresh h hh)
    · exact hh

/-- **A planted tree is found** under its new handle. -/
theorem shape?_plant {d : Document} (hd : d.WellFormed) (t : Tree Content) :
    (d.plant t).1.shape? (d.plant t).2 = some t := by
  have hold : d.forest.find? d.next = none :=
    Forest.find?_eq_none_iff.2 fun h => Nat.lt_irrefl _ (hd.fresh _ h)
  have hnew : ((d.plant t).1.tree? (d.plant t).2) =
      some ⟨⟨d.next, t.label⟩, t.children.number (d.next + 1)⟩ := by
    simp only [Document.plant, tree?, Forest.find?_append, hold, Option.none_or, Tree.toForest,
      Forest.number, Forest.find?, if_true]
  unfold shape?
  rw [hnew, Option.map_some]
  exact congrArg (fun f => some (Tree.mk t.label f)) (Forest.contents_number _ _)

/-! ## Writing -/

/-- Writing changes the one node, by as much as it takes. -/
theorem writeNode_eq_relabel {d : Document} (hd : d.WellFormed) (h : Handle)
    (g : Content → Option Content) :
    (d.writeNode h g).1 = { d with forest := d.forest.relabel h fun c => (g c).getD c } := by
  have hself : d.forest.relabel h id = d.forest := by
    induction d.forest with
    | nil => rfl
    | cons a below beside ih₁ ih₂ =>
      unfold Forest.relabel
      rw [ih₁, ih₂]
      split <;> rfl
  unfold writeNode content?
  cases ht : d.tree? h with
  | none =>
    have hnot := Forest.find?_eq_none_iff.1 ht
    simp [Forest.relabel_of_not_mem _ hnot]
  | some t =>
    simp only [Option.map_some, Option.bind_some]
    cases hg : g t.label.content with
    | some c =>
      simp only
      rw [Forest.relabel_congr hd.nodup ht (k := fun c => (g c).getD c) (by simp [hg])]
    | none =>
      simp only
      rw [Forest.relabel_congr hd.nodup ht (k := id) (by simp [hg]), hself]

theorem tree?_writeNode {d : Document} (hd : d.WellFormed) (r h : Handle)
    (g : Content → Option Content) :
    (d.writeNode h g).1.tree? r =
      (d.tree? r).map (Tree.relabel h fun c => (g c).getD c) := by
  rw [writeNode_eq_relabel hd]
  exact Forest.find?_relabel r h _ d.forest

theorem WellFormed.writeNode {d : Document} (hd : d.WellFormed) (h : Handle)
    (g : Content → Option Content) : (d.writeNode h g).1.WellFormed := by
  rw [writeNode_eq_relabel hd]
  constructor
  · simpa using hd.nodup
  · simpa using hd.fresh

theorem nodeAt_eq_ok_iff {d : Document} {root h : Handle} {a : Address} :
    d.nodeAt root a = .ok h ↔
      ∃ t s, d.tree? root = some t ∧ t.at? a.places = some s ∧ s.label.handle = h := by
  unfold nodeAt
  cases d.tree? root with
  | none => simp
  | some t =>
    simp only [Option.some.injEq, exists_and_left, exists_eq_left', ← Tree.resolve_eq_ok_iff]
    cases t.resolve a <;> simp

/-- **A node has one address** from a root. -/
theorem WellFormed.nodeAt_inj {d : Document} (hd : d.WellFormed) {root h : Handle} {a b : Address}
    (ha : d.nodeAt root a = .ok h) (hb : d.nodeAt root b = .ok h) : a = b := by
  obtain ⟨t, s, ht, hs, hsh⟩ := nodeAt_eq_ok_iff.1 ha
  obtain ⟨t', s', ht', hs', hsh'⟩ := nodeAt_eq_ok_iff.1 hb
  obtain rfl := Option.some.inj (ht.symm.trans ht')
  exact congrArg Address.mk
    (Tree.places_inj (nodup_handles_of_tree? hd ht) hs hs' (hsh.trans hsh'.symm))

end Document

theorem Forest.tree?_relabel (h : Handle) (g : Content → Content) (f : Forest Node) (i : Nat) :
    (f.relabel h g).tree? i = (f.tree? i).map (Tree.relabel h g) := by
  induction f generalizing i with
  | nil => rfl
  | cons a below beside _ ih =>
    cases i with
    | zero => rfl
    | succ i => exact ih i

theorem Tree.at?_relabel (h : Handle) (g : Content → Content) (t : Tree Node) (places : List Nat) :
    (t.relabel h g).at? places = (t.at? places).map (Tree.relabel h g) := by
  induction places generalizing t with
  | nil => rfl
  | cons place places ih =>
    rw [at?_cons, at?_cons, relabel, Forest.tree?_relabel]
    cases t.children.tree? place with
    | none => rfl
    | some child => exact ih child

namespace Document

/-- **Writing keeps the meaning of addresses.** -/
theorem nodeAt_writeNode {d : Document} (hd : d.WellFormed) {root x : Handle} {a : Address}
    (ha : d.nodeAt root a = .ok x) (h : Handle) (g : Content → Option Content) :
    (d.writeNode h g).1.nodeAt root a = .ok x := by
  obtain ⟨t, s, ht, hs, hx⟩ := nodeAt_eq_ok_iff.1 ha
  refine nodeAt_eq_ok_iff.2 ⟨t.relabel h fun c => (g c).getD c, s.relabel h fun c => (g c).getD c,
    ?_, ?_, ?_⟩
  · rw [tree?_writeNode hd, ht, Option.map_some]
  · rw [Tree.at?_relabel, hs, Option.map_some]
  · rw [Tree.label_handle_relabel, hx]

/-- **Writing to the node at an address** writes at the places that lead to it. -/
theorem shape?_writeNode {d : Document} (hd : d.WellFormed) {root h : Handle} {a : Address}
    (ha : d.nodeAt root a = .ok h) (g : Content → Option Content) :
    (d.writeNode h g).1.shape? root =
      (d.shape? root).map (Tree.relabelAt (fun c => (g c).getD c) a.places) := by
  obtain ⟨t, s, ht, hs, rfl⟩ := nodeAt_eq_ok_iff.1 ha
  rw [shape?, shape?, tree?_writeNode hd, ht]
  exact congrArg some (Tree.contents_relabel (nodup_handles_of_tree? hd ht) hs _)

end Document

end MarkupTemplate
