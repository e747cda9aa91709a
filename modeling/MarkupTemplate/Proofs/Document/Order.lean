import MarkupTemplate.Proofs.Document.Addressing

/-!
# Document order

The descendants of a node are met on a walk through the tree: a node before what is under it, and
that before its right neighbours. The addresses met on the way are the `walk` of the tree. They come
in lexicographic order, where an address stands before those that go on from it, because the trees
of a forest start with different places, smaller ones further to the left.

Results:
* `Forest.pairwise_walk`: the addresses of a walk come in lexicographic order.
* `Forest.map_places?_handles`: the walk meets each node at its address.
* `WellFormed.map_addressOf?_descendants`: so do the descendants of a root.
* `textContent_eq_join`: the text of a node is that of its text nodes in this order.
* `descendants_follow_addresses`: all of this of whatever operations lead to.
-/

namespace MarkupTemplate

universe u v

variable {α : Type u}

namespace Forest

/-! ## Walking through a forest -/

/-- The places that lead to the nodes, in document order, where the forest follows `skipped` other
trees. -/
def walk (skipped : Nat) : Forest α → List (List Nat)
  | nil => []
  | cons _ below beside =>
    [skipped] :: ((below.walk 0).map (skipped :: ·) ++ beside.walk (skipped + 1))

theorem length_walk (f : Forest α) (skipped : Nat) :
    (f.walk skipped).length = f.labels.length := by
  induction f generalizing skipped with
  | nil => rfl
  | cons a below beside ih₁ ih₂ => simp [walk, labels, ih₁, ih₂]

theorem walk_map {β : Type v} (g : α → β) (f : Forest α) (skipped : Nat) :
    (f.map g).walk skipped = f.walk skipped := by
  induction f generalizing skipped with
  | nil => rfl
  | cons a below beside ih₁ ih₂ => rw [map, walk, walk, ih₁, ih₂]

/-- A walk through trees meets only places that start with one of theirs. -/
theorem le_of_mem_walk {skipped : Nat} {f : Forest α} {places : List Nat}
    (h : places ∈ f.walk skipped) : ∃ place rest, places = place :: rest ∧ skipped ≤ place := by
  induction f generalizing skipped with
  | nil => cases h
  | cons a below beside _ ih =>
    rw [walk, List.mem_cons, List.mem_append, List.mem_map] at h
    rcases h with rfl | ⟨rest, -, rfl⟩ | h
    · exact ⟨skipped, [], rfl, Nat.le_refl _⟩
    · exact ⟨skipped, rest, rfl, Nat.le_refl _⟩
    · obtain ⟨place, rest, hplaces, hle⟩ := ih h
      exact ⟨place, rest, hplaces, Nat.le_of_succ_le hle⟩

/-- **The places of a walk come in lexicographic order.** -/
theorem pairwise_walk (f : Forest α) (skipped : Nat) : (f.walk skipped).Pairwise (· < ·) := by
  induction f generalizing skipped with
  | nil => exact .nil
  | cons a below beside ih₁ ih₂ =>
    -- the first tree starts with a smaller place than the others
    have hfirst : ∀ rest places, places ∈ beside.walk (skipped + 1) →
        skipped :: rest < places := by
      intro rest places hmem
      obtain ⟨place, rest', rfl, hle⟩ := le_of_mem_walk hmem
      exact List.cons_lt_cons_iff.2 (.inl hle)
    have hbelow : ((below.walk 0).map (skipped :: ·)).Pairwise (· < ·) :=
      List.pairwise_map.2 ((ih₁ 0).imp fun hlt => List.cons_lt_cons_iff.2 (.inr ⟨rfl, hlt⟩))
    rw [walk, List.pairwise_cons, List.pairwise_append]
    refine ⟨fun places hmem => ?_, hbelow, ih₂ (skipped + 1), fun places hmem places' hmem' => ?_⟩
    · rw [List.mem_append, List.mem_map] at hmem
      rcases hmem with ⟨rest, hmem, rfl⟩ | hmem
      · obtain ⟨place, rest, rfl, -⟩ := le_of_mem_walk hmem
        exact List.cons_lt_cons_iff.2 (.inr ⟨rfl, List.nil_lt_cons place rest⟩)
      · exact hfirst [] places hmem
    · obtain ⟨rest, -, rfl⟩ := List.mem_map.1 hmem
      exact hfirst rest places' hmem'

/-- **A walk meets each node at its places.** -/
theorem map_places?_handles {f : Forest Node} (hf : f.handles.Nodup) (skipped : Nat) :
    f.handles.map (f.places? · skipped) = (f.walk skipped).map some := by
  induction f generalizing skipped with
  | nil => rfl
  | cons a below beside ih₁ ih₂ =>
    obtain ⟨-, -, hbelow, hbeside, -⟩ := nodup_handles_cons.1 hf
    have hroot : (cons a below beside).places? a.handle skipped = some [skipped] := by
      rw [places?, if_pos rfl]
    have hunder : below.handles.map ((cons a below beside).places? · skipped) =
        ((below.walk 0).map (skipped :: ·)).map some := by
      have hplaces := congrArg (List.map (Option.map (skipped :: ·))) (ih₁ hbelow 0)
      rw [List.map_map, List.map_map] at hplaces
      rw [List.map_congr_left fun h hh => places?_cons_below skipped hf hh, List.map_map]
      exact hplaces
    have hright : beside.handles.map ((cons a below beside).places? · skipped) =
        (beside.walk (skipped + 1)).map some := by
      rw [List.map_congr_left fun h hh => places?_cons_beside skipped hf hh,
        ih₂ hbeside (skipped + 1)]
    rw [handles_cons, List.map_cons, List.map_append, hroot, hunder, hright, walk, List.map_cons,
      List.map_append]

end Forest

/-- The places that lead to the nodes of a tree, in document order. -/
def Tree.walk (t : Tree α) : List (List Nat) :=
  [] :: t.children.walk 0

theorem Tree.pairwise_walk (t : Tree α) : t.walk.Pairwise (· < ·) := by
  refine List.pairwise_cons.2 ⟨fun places hmem => ?_, t.children.pairwise_walk 0⟩
  obtain ⟨place, rest, rfl, -⟩ := Forest.le_of_mem_walk hmem
  exact List.nil_lt_cons place rest

/-- Absent texts add nothing. -/
theorem join_map_getD {α : Type u} (g : α → Option String) (l : List α) :
    String.join (l.map fun a => (g a).getD "") = String.join (l.filterMap g) := by
  induction l with
  | nil => rfl
  | cons a l ih =>
    rw [List.map_cons, String.join_cons, ih, List.filterMap_cons]
    cases g a with
    | none => exact String.empty_append
    | some s => exact String.join_cons.symm

namespace Document

/-! ## Walking through a document -/

/-- **The descendants of a root are met at their addresses.** -/
theorem WellFormed.map_addressOf?_descendants {d : Document} (hd : d.WellFormed) {root : Handle}
    {t : Tree Node} (ht : d.tree? root = some t) :
    (d.descendants root).map (d.addressOf? root) = (t.walk.map Address.mk).map some := by
  have hnodup := nodup_handles_of_tree? hd ht
  have hroot : t.label.handle = root := Forest.handle_of_find? ht
  obtain ⟨hself, hbelow⟩ := List.nodup_cons.1 hnodup
  have hunder : ∀ n ∈ t.children.handles,
      d.addressOf? root n = (t.children.places? n 0).map Address.mk := by
    intro n hn
    have hne : n ≠ root := fun e => hself (hroot ▸ e ▸ hn)
    rw [addressOf?_of_ne hne, ht, Option.bind_some]
  have hplaces := congrArg (List.map (Option.map Address.mk)) (Forest.map_places?_handles hbelow 0)
  rw [List.map_map, List.map_map] at hplaces
  rw [descendants_of_tree? ht, below_of_tree? ht, List.map_cons, List.map_congr_left hunder,
    addressOf?, if_pos rfl, Tree.walk, List.map_cons, List.map_cons, List.map_map]
  exact congrArg (some Address.root :: ·) hplaces

theorem WellFormed.nodup_descendants {d : Document} (hd : d.WellFormed) (root : Handle) :
    (d.descendants root).Nodup := by
  cases ht : d.tree? root with
  | none =>
    rw [descendants, ht]
    exact List.nodup_nil
  | some t =>
    rw [descendants, ht]
    exact nodup_handles_of_tree? hd ht

/-! ## Texts -/

/-- The text of a text node; other nodes have none. -/
def textOf? (d : Document) (h : Handle) : Option String :=
  match d.content? h with
  | some (.text s) => some s
  | _ => none

theorem ownText_of_content? {d : Document} {h : Handle} {c : Content}
    (hc : d.content? h = some c) : c.ownText = (d.textOf? h).getD "" := by
  rw [textOf?, hc]
  cases c <;> rfl

/-- **The text of a node is that of its text nodes**, in document order. -/
theorem WellFormed.textContent_eq_join {d : Document} (hd : d.WellFormed) (root : Handle) :
    d.textContent root = String.join ((d.descendants root).filterMap d.textOf?) := by
  cases ht : d.tree? root with
  | none =>
    rw [textContent, shape?, descendants, ht]
    rfl
  | some t =>
    have hown : ∀ n ∈ t.labels, n.content.ownText = (d.textOf? n.handle).getD "" := fun n hn =>
      ownText_of_content? (hd.content?_eq_some_iff.2
        ((Forest.labels_sublist_of_find? ht).subset hn))
    have hlabels : (t.map Node.content).toForest.labels = t.labels.map Node.content := by
      simp [Tree.toForest, Tree.map, Tree.labels, Forest.labels]
    rw [textContent, shape?, descendants, ht, Option.map_some, Option.map_some, Option.map_some,
      Option.getD_some, Option.getD_some, Tree.textContent, Forest.textContent, hlabels,
      List.map_map, List.filterMap_map, ← join_map_getD]
    exact congrArg String.join (List.map_congr_left hown)

/-! ## Document order -/

/-- **Descendants come in the order of their addresses.** Whatever was done to a document, the
descendants of a root that is there, with the root itself, are the nodes with an address from it,
each of them once. Their addresses come in lexicographic order, where an address stands before those
that go on from it. The text of the root is that of its text nodes in this order. The address of a
node is found on the way up to the root. -/
theorem descendants_follow_addresses {d : Document} (hd : d.Reachable) {root : Handle}
    (hr : d.contains root = true) :
    (d.descendants root).Nodup ∧
      (∀ n, n ∈ d.descendants root ↔ ∃ a, d.addressOf? root n = some a) ∧
      (∃ as : List Address, (d.descendants root).map (d.addressOf? root) = as.map some ∧
        as.Pairwise fun a b => a.places < b.places) ∧
      d.textContent root = String.join ((d.descendants root).filterMap d.textOf?) ∧
      ∀ n, d.climb root (d.forest.handles.length + 1) n [] = some (d.addressOf? root n) := by
  have hwf := hd.wellFormed
  obtain ⟨t, ht⟩ := Option.isSome_iff_exists.1 hr
  refine ⟨hwf.nodup_descendants root, fun n => ?_, ⟨t.walk.map Address.mk,
    hwf.map_addressOf?_descendants ht, List.pairwise_map.2 t.pairwise_walk⟩,
    hwf.textContent_eq_join root, hwf.isForest.climbs root⟩
  simp only [hwf.mem_descendants_iff, hwf.addressOf?_eq_some_iff hr]

/-- Two texts change their order when the first is moved after the second. -/
theorem descendants_follow_addresses_moved :
    let d := empty.run [.createElement none "ul", .createElement none "li", .createText "x",
      .createElement none "li", .createText "y", .append 0 1, .append 1 2, .append 0 3,
      .append 3 4, .append 3 2]
    d.Reachable ∧ d.contains 0 = true ∧ d.descendants 0 = [0, 1, 3, 4, 2] ∧
      d.addressOf? 0 2 = some ⟨[1, 1]⟩ ∧ 2 ∈ d.descendants 0 ∧ d.textContent 0 = "yx" := by
  intro d
  have hd : d.Reachable := reachable_run _
  have hr : d.contains 0 = true := by decide +kernel
  have haddress : d.addressOf? 0 2 = some ⟨[1, 1]⟩ := by decide +kernel
  obtain ⟨-, hmem, -, htext, -⟩ := descendants_follow_addresses hd hr
  refine ⟨hd, hr, by decide +kernel, haddress, (hmem 2).2 ⟨_, haddress⟩, ?_⟩
  rw [htext]
  decide +kernel

end Document

end MarkupTemplate
