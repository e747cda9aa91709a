import MarkupTemplate.Proofs.Document.Extension
import MarkupTemplate.Proofs.Document.Operation
import Mathlib.Data.List.Induction

/-!
# Addresses and nodes

Under a root that is there, addresses and nodes name each other: the way down along an address ends
at the node from which the way up to the root gives this address. Both ways are taken step by step,
down to the child at a place and up to the parent, so the proofs go along the address from its last
place on.

Results:
* `WellFormed.mem_descendants_iff`: addresses lead to a node and its descendants.
* `WellFormed.nodeAt_concat`: one more place leads to the child at that place.
* `WellFormed.childAt?_eq_some_iff`: the way down to a child is the way up from it.
* `WellFormed.addressOf?_eq_some_iff`: an address leads to the node whose address it is.
* `WellFormed.exists_addressOf?_iff`: the nodes under a root, and only they, have an address.
* `WellFormed.exists_overrun`: any other address fails at the first place that leads nowhere.
* `addresses_name_nodes`: all of this of whatever operations lead to.
-/

namespace MarkupTemplate

universe u

variable {α : Type u}

/-! ## The way down -/

namespace Forest

theorem tree?_eq_none_iff {f : Forest α} {i : Nat} : f.tree? i = none ↔ f.width ≤ i := by
  rw [tree?_eq_getElem?, List.getElem?_eq_none_iff, length_trees]

/-- Some places lead to every node. -/
theorem exists_at?_of_mem_handles {h : Handle} {f : Forest Node} (hh : h ∈ f.handles) :
    ∃ i t places s, f.tree? i = some t ∧ t.at? places = some s ∧ s.label.handle = h := by
  induction f with
  | nil => cases hh
  | cons a below beside ih₁ ih₂ =>
    rw [handles_cons, List.mem_cons, List.mem_append] at hh
    rcases hh with rfl | hh | hh
    · exact ⟨0, ⟨a, below⟩, [], ⟨a, below⟩, rfl, rfl, rfl⟩
    · obtain ⟨i, t, places, s, ht, hs, hh⟩ := ih₁ hh
      refine ⟨0, ⟨a, below⟩, i :: places, s, rfl, ?_, hh⟩
      rw [Tree.at?_cons, ht]
      exact hs
    · obtain ⟨i, t, places, s, ht, hs, hh⟩ := ih₂ hh
      exact ⟨i + 1, t, places, s, ht, hs, hh⟩

end Forest

namespace Tree

/-- The places of two ways, one after the other, lead along both. -/
theorem at?_append (t : Tree α) (places places' : List Nat) :
    t.at? (places ++ places') = (t.at? places).bind fun s => s.at? places' := by
  induction places generalizing t with
  | nil => rfl
  | cons place places ih =>
    rw [List.cons_append, at?_cons, at?_cons, Option.bind_assoc]
    exact congrArg _ (funext ih)

/-- Where the way down ends too early, it has come to a tree with too few children. -/
theorem exists_of_follow_eq_error {t : Tree α} {places : List Nat} {depth : Nat}
    {e : Nat × Nat × Nat} (h : t.follow places depth = .error e) :
    ∃ k s i, e = (depth + k, i, s.children.width) ∧ t.at? (places.take k) = some s ∧
      places[k]? = some i ∧ s.children.width ≤ i := by
  induction places generalizing t depth with
  | nil => cases h
  | cons place places ih =>
    unfold follow at h
    split at h
    · next child hchild =>
      obtain ⟨k, s, i, rfl, hs, hi, hle⟩ := ih h
      refine ⟨k + 1, s, i, by rw [Nat.add_assoc, Nat.add_comm 1], ?_, hi, hle⟩
      rw [List.take_succ_cons, at?_cons, hchild]
      exact hs
    · next hnone =>
      obtain rfl := Except.error.inj h
      exact ⟨0, t, place, rfl, rfl, rfl, Forest.tree?_eq_none_iff.1 hnone⟩

end Tree

namespace Document

theorem nodeAt_root {d : Document} {root : Handle} (hr : d.contains root = true) :
    d.nodeAt root .root = .ok root := by
  obtain ⟨t, ht⟩ := Option.isSome_iff_exists.1 hr
  exact nodeAt_eq_ok_iff.2 ⟨t, t, ht, rfl, Forest.handle_of_find? ht⟩

/-- **Addresses lead to a node's descendants**, and to the node itself. -/
theorem WellFormed.mem_descendants_iff {d : Document} (hd : d.WellFormed) {root n : Handle} :
    n ∈ d.descendants root ↔ ∃ a, d.nodeAt root a = .ok n := by
  constructor
  · intro hn
    cases ht : d.tree? root with
    | none =>
      rw [descendants, ht] at hn
      cases hn
    | some t =>
      rw [descendants, ht] at hn
      rcases List.mem_cons.1 (show n ∈ t.handles from hn) with rfl | hn
      · exact ⟨⟨[]⟩, nodeAt_eq_ok_iff.2 ⟨t, t, ht, rfl, rfl⟩⟩
      · obtain ⟨i, u, places, s, hu, hs, rfl⟩ := Forest.exists_at?_of_mem_handles hn
        refine ⟨⟨i :: places⟩, nodeAt_eq_ok_iff.2 ⟨t, s, ht, ?_, rfl⟩⟩
        rw [Tree.at?_cons, hu]
        exact hs
  · rintro ⟨a, ha⟩
    obtain ⟨t, s, ht, hs, rfl⟩ := nodeAt_eq_ok_iff.1 ha
    rw [descendants, ht]
    exact Tree.mem_handles_of_at? (nodup_handles_of_tree? hd ht) hs

/-- **One more place leads to the child at that place.** -/
theorem WellFormed.nodeAt_concat {d : Document} (hd : d.WellFormed) {root n : Handle}
    {places : List Nat} {place : Nat} :
    d.nodeAt root ⟨places ++ [place]⟩ = .ok n ↔
      ∃ p, d.nodeAt root ⟨places⟩ = .ok p ∧ d.childAt? p place = some n := by
  have hchild : ∀ {t s : Tree Node}, d.tree? root = some t → t.at? places = some s →
      (d.childAt? s.label.handle place = some n ↔
        ∃ x, s.at? [place] = some x ∧ x.label.handle = n) := by
    intro t s ht hs
    rw [childAt?, children_of_tree? (Forest.find?_of_at? hd.nodup ht hs),
      Forest.getElem?_rootHandles, Option.map_eq_some_iff, Tree.at?_cons]
    simp only [Tree.at?_nil, Option.bind_fun_some]
  simp only [nodeAt_eq_ok_iff, Tree.at?_append]
  constructor
  · rintro ⟨t, x, ht, hx, hn⟩
    obtain ⟨s, hs, hx⟩ := Option.bind_eq_some_iff.1 hx
    exact ⟨s.label.handle, ⟨t, s, ht, hs, rfl⟩, (hchild ht hs).2 ⟨x, hx, hn⟩⟩
  · rintro ⟨-, ⟨t, s, ht, hs, rfl⟩, hn⟩
    obtain ⟨x, hx, hn⟩ := (hchild ht hs).1 hn
    exact ⟨t, x, ht, by rw [hs]; exact hx, hn⟩

/-- The way down can be left at every place on it. -/
theorem exists_nodeAt_of_append {d : Document} {root n : Handle} {places places' : List Nat}
    (h : d.nodeAt root ⟨places ++ places'⟩ = .ok n) : ∃ p, d.nodeAt root ⟨places⟩ = .ok p := by
  obtain ⟨t, x, ht, hx, -⟩ := nodeAt_eq_ok_iff.1 h
  rw [Tree.at?_append] at hx
  obtain ⟨s, hs, -⟩ := Option.bind_eq_some_iff.1 hx
  exact ⟨s.label.handle, nodeAt_eq_ok_iff.2 ⟨t, s, ht, hs, rfl⟩⟩

/-! ## The way up -/

/-- **The way down to a child is the way up from it.** -/
theorem WellFormed.childAt?_eq_some_iff {d : Document} (hd : d.WellFormed) {p n : Handle}
    {place : Nat} :
    d.childAt? p place = some n ↔ d.parent? n = some p ∧ d.position? n = some place := by
  have hplace : (d.children p)[place]? = some n ↔ (d.children p).idxOf? n = some place := by
    rw [List.getElem?_eq_some_iff, List.idxOf?_eq_some_iff]
    refine exists_congr fun hlt => ⟨?_, And.left⟩
    rintro rfl
    exact ⟨rfl, fun j hj he =>
      Nat.ne_of_lt hj ((hd.nodup_children p).getElem_inj_iff.1 he)⟩
  constructor
  · intro h
    have hparent := hd.parent?_eq_some_iff.2 (List.mem_of_getElem? h)
    refine ⟨hparent, ?_⟩
    rw [position?, hparent]
    exact hplace.1 h
  · rintro ⟨hparent, h⟩
    rw [position?, hparent] at h
    exact hplace.2 h

section

variable {d : Document} (hd : d.WellFormed) {root : Handle} (hr : d.contains root = true)

include hd hr

/-- **An address leads to the node whose address it is.** -/
theorem WellFormed.addressOf?_eq_some_iff {n : Handle} {a : Address} :
    d.addressOf? root n = some a ↔ d.nodeAt root a = .ok n := by
  obtain ⟨places⟩ := a
  have hroot : d.nodeAt root ⟨[]⟩ = .ok root := nodeAt_root hr
  induction places using List.reverseRecOn generalizing n with
  | nil =>
    rw [hroot]
    by_cases hn : n = root
    · rw [hn, addressOf?, if_pos rfl]
      exact iff_of_true rfl rfl
    · refine iff_of_false (fun h => ?_) fun h => hn (Except.ok.inj h).symm
      -- the address of another node ends with the place of that node
      rw [hd.addressOf?_eq hn] at h
      obtain ⟨p, -, h⟩ := Option.bind_eq_some_iff.1 h
      obtain ⟨place, -, h⟩ := Option.bind_eq_some_iff.1 h
      obtain ⟨a, -, h⟩ := Option.map_eq_some_iff.1 h
      exact List.append_ne_nil_of_right_ne_nil _ (List.cons_ne_nil _ _) (Address.mk.inj h)
  | append_singleton places place ih =>
    by_cases hn : n = root
    · subst hn
      refine iff_of_false (fun h => ?_) fun h => ?_
      · rw [addressOf?, if_pos rfl] at h
        cases places <;> cases h
      · have := Address.mk.inj (hd.nodeAt_inj hroot h)
        cases places <;> cases this
    · rw [hd.addressOf?_eq hn, hd.nodeAt_concat]
      simp only [hd.childAt?_eq_some_iff, ← ih, Option.bind_eq_some_iff, Option.map_eq_some_iff,
        Address.mk.injEq, List.append_singleton_inj]
      constructor
      · rintro ⟨p, hp, _, hplace, ⟨_⟩, ha, rfl, rfl⟩
        exact ⟨p, ha, hp, hplace⟩
      · rintro ⟨p, ha, hp, hplace⟩
        exact ⟨p, hp, place, hplace, ⟨places⟩, ha, rfl, rfl⟩

omit hr in
/-- **The nodes under a root, and only they, have an address.** -/
theorem WellFormed.exists_addressOf?_iff {n : Handle} :
    (∃ a, d.addressOf? root n = some a) ↔ Relation.ReflTransGen d.IsParent root n := by
  have hself : ∃ a, d.addressOf? root root = some a := ⟨.root, if_pos rfl⟩
  constructor
  · intro h
    induction n using hd.wellFounded_isParent.induction with
    | h n ih =>
      by_cases hn : n = root
      · rw [hn]
      · obtain ⟨a, ha⟩ := h
        rw [hd.addressOf?_eq hn] at ha
        obtain ⟨p, hp, ha⟩ := Option.bind_eq_some_iff.1 ha
        obtain ⟨place, -, ha⟩ := Option.bind_eq_some_iff.1 ha
        obtain ⟨a, ha, -⟩ := Option.map_eq_some_iff.1 ha
        exact (ih p hp ⟨a, ha⟩).tail hp
  · intro h
    induction h with
    | refl => exact hself
    | @tail p n _ hp ih =>
      by_cases hn : n = root
      · rw [hn]
        exact hself
      · obtain ⟨a, ha⟩ := ih
        have hp : d.parent? n = some p := hp
        obtain ⟨place, hplace⟩ := List.mem_iff_getElem?.1 (hd.parent?_eq_some_iff.1 hp)
        have hposition := (hd.childAt?_eq_some_iff.1 hplace).2
        refine ⟨⟨a.places ++ [place]⟩, ?_⟩
        rw [hd.addressOf?_eq hn, hp, hposition, Option.bind_some, Option.bind_some, ha,
          Option.map_some]

end

/-! ## Addresses that lead nowhere -/

/-- The first places of the address lead to a node, and the next one is not the place of a child of
that node. -/
def Overruns (d : Document) (root : Handle) (e : Address.OutOfRange) : Prop :=
  ∃ n, d.nodeAt root ⟨e.address.places.take e.depth⟩ = .ok n ∧
    e.address.places[e.depth]? = some e.index ∧
    (d.children n).length = e.childCount ∧ e.childCount ≤ e.index

theorem length_children {d : Document} {h : Handle} {t : Tree Node} (ht : d.tree? h = some t) :
    (d.children h).length = t.children.width := by
  rw [children_of_tree? ht, Forest.rootHandles, Forest.roots, List.length_map, List.length_map,
    Forest.length_trees]

section

variable {d : Document} (hd : d.WellFormed) {root : Handle}

include hd

/-- The way down does not go on where the next place is not that of a child. -/
theorem WellFormed.depth_le_of_overruns {e e' : Address.OutOfRange} (he : d.Overruns root e)
    (he' : d.Overruns root e') (ha : e'.address = e.address) : e.depth ≤ e'.depth := by
  obtain ⟨n, hn, -⟩ := he
  obtain ⟨n', hn', hindex, hcount, hle⟩ := he'
  rw [ha] at hn' hindex
  by_contra hlt
  have hsplit : e.address.places.take e.depth =
      (e.address.places.take e'.depth ++ [e'.index]) ++
        (e.address.places.take e.depth).drop (e'.depth + 1) := by
    have hnext : (e.address.places.take e.depth).take (e'.depth + 1) =
        e.address.places.take e'.depth ++ [e'.index] := by
      rw [List.take_take, Nat.min_eq_left (by omega), List.take_add_one, hindex]
      rfl
    rw [← hnext, List.take_append_drop]
  rw [hsplit] at hn
  obtain ⟨c, hc⟩ := exists_nodeAt_of_append hn
  obtain ⟨p, hp, hchild⟩ := hd.nodeAt_concat.1 hc
  obtain rfl := Except.ok.inj (hp.symm.trans hn')
  have := (List.getElem?_eq_some_iff.1 hchild).1
  omega

/-- **An address that leads to no node** fails where the way down ends first. -/
theorem WellFormed.exists_overrun (hr : d.contains root = true) {a : Address}
    (ha : ∀ n, d.nodeAt root a ≠ .ok n) :
    ∃ e, d.nodeAt root a = .error (.outOfRange e) ∧ e.address = a ∧ d.Overruns root e ∧
      ∀ e', e'.address = a → d.Overruns root e' → e.depth ≤ e'.depth := by
  obtain ⟨t, ht⟩ := Option.isSome_iff_exists.1 hr
  have ht : d.tree? root = some t := ht
  cases hfollow : t.follow a.places 0 with
  | ok s =>
    exact absurd (nodeAt_eq_ok_iff.2 ⟨t, s, ht, Tree.follow_eq_ok_iff.1 hfollow, rfl⟩) (ha _)
  | error x =>
    obtain ⟨k, s, i, rfl, hs, hi, hle⟩ := Tree.exists_of_follow_eq_error hfollow
    have hnode := Forest.find?_of_at? hd.nodup ht hs
    have hover : d.Overruns root ⟨a, k, i, s.children.width⟩ :=
      ⟨s.label.handle, nodeAt_eq_ok_iff.2 ⟨t, s, ht, hs, rfl⟩, hi, length_children hnode, hle⟩
    refine ⟨_, ?_, rfl, hover, fun e' he' => ?_⟩
    · rw [nodeAt, ht]
      simp only [Tree.resolve, hfollow, Nat.zero_add]
    · exact fun hover' => hd.depth_le_of_overruns hover hover' he'

end

/-! ## Both ways -/

/-- **Addresses name the nodes under a root.** Whatever was done to a document, the nodes that have
an address from a root that is there are the root and its descendants. An address leads to the node
whose address it is, and to no other. An address that is no node's fails at the least depth where
its places have led to a node and the next place is not that of a child; it says so with the number
of children there. The address of a node is found on the way up to the root. -/
theorem addresses_name_nodes {d : Document} (hd : d.Reachable) {root : Handle}
    (hr : d.contains root = true) :
    (∀ n, (∃ a, d.addressOf? root n = some a) ↔ Relation.ReflTransGen d.IsParent root n) ∧
      (∀ n a, d.addressOf? root n = some a ↔ d.nodeAt root a = .ok n) ∧
      (∀ a, (∀ n, d.addressOf? root n ≠ some a) →
        ∃ e, d.nodeAt root a = .error (.outOfRange e) ∧ e.address = a ∧ d.Overruns root e ∧
          ∀ e', e'.address = a → d.Overruns root e' → e.depth ≤ e'.depth) ∧
      ∀ n, d.climb root (d.forest.handles.length + 1) n [] = some (d.addressOf? root n) := by
  have hwf := hd.wellFormed
  refine ⟨fun n => hwf.exists_addressOf?_iff, fun n a => hwf.addressOf?_eq_some_iff hr,
    fun a ha => hwf.exists_overrun hr fun n hn => ?_, hwf.isForest.climbs root⟩
  exact ha n ((hwf.addressOf?_eq_some_iff hr).2 hn)

/-- A text is moved to the second of two items, after what was there. -/
theorem addresses_name_nodes_moved :
    let d := empty.run [.createElement none "ul", .createElement none "li", .createText "x",
      .createElement none "li", .createComment "y", .append 0 1, .append 1 2, .append 0 3,
      .append 3 4, .append 3 2]
    d.Reachable ∧ d.contains 0 = true ∧ d.addressOf? 0 2 = some ⟨[1, 1]⟩ ∧
      d.nodeAt 0 ⟨[1, 1]⟩ = .ok 2 ∧ Relation.ReflTransGen d.IsParent 0 2 ∧
      d.nodeAt 0 ⟨[1, 2, 0]⟩ = .error (.outOfRange ⟨⟨[1, 2, 0]⟩, 1, 2, 2⟩) ∧
      d.Overruns 0 ⟨⟨[1, 2, 0]⟩, 1, 2, 2⟩ := by
  intro d
  have hd : d.Reachable := reachable_run _
  have hr : d.contains 0 = true := by decide +kernel
  obtain ⟨hunder, hnamed, hfails, -⟩ := addresses_name_nodes hd hr
  have haddress : d.addressOf? 0 2 = some ⟨[1, 1]⟩ := by decide +kernel
  have herror : d.nodeAt 0 ⟨[1, 2, 0]⟩ = .error (.outOfRange ⟨⟨[1, 2, 0]⟩, 1, 2, 2⟩) := by
    decide +kernel
  obtain ⟨e, he, -, hover, -⟩ := hfails ⟨[1, 2, 0]⟩ fun n hn => by
    rw [(hnamed n _).1 hn] at herror
    cases herror
  obtain rfl := TreeError.outOfRange.inj (Except.error.inj (he.symm.trans herror))
  exact ⟨hd, hr, haddress, (hnamed 2 _).1 haddress, (hunder 2).1 ⟨_, haddress⟩, herror, hover⟩

end Document

end MarkupTemplate
