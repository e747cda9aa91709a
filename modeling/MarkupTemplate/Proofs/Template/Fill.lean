import MarkupTemplate.Proofs.Document.WellFormed
import MarkupTemplate.Template.Instance

/-!
# Filling a skeleton

Binding descriptors to a copy of a skeleton and updating it is the same as writing the data into
the skeleton itself, at the address of each descriptor. `Tree.fill` does the latter; no document
and no handle takes part in it.

Results:
* `instantiate_attached`: a template whose descriptors reach nodes of its skeleton has instances,
  and each is the filled skeleton.
* `Attached.shape?_update`: an update fills the tree that the instance is.
* `Attached.update`: so the instance stays bound to the nodes of the copy.
-/

namespace MarkupTemplate

/-- The tree with what a descriptor writes for the data `v`. -/
def Descriptor.writeTo (v : Value) (t : Tree Content) (s : Descriptor) : Tree Content :=
  t.relabelAt (fun c => (s.target.write? v c).getD c) s.address.places

/-- The tree with the data `v` written at every descriptor, one after the other. -/
def Tree.fill (v : Value) (ss : List Descriptor) (t : Tree Content) : Tree Content :=
  ss.foldl (Descriptor.writeTo v) t

/-- The tree filled with data that is given and not absent. -/
def Tree.fillGiven (data : Option Value) (ss : List Descriptor) (t : Tree Content) :
    Tree Content :=
  match data with
  | some v => if v.isNull then t else t.fill v ss
  | none => t

/-- The address of a descriptor names a node of the tree. -/
def Descriptor.Reaches (t : Tree Content) (s : Descriptor) : Prop :=
  (t.at? s.address.places).isSome

/-- An instance whose updater is bound to the nodes under its root that the descriptors name. -/
structure Document.Attached (d : Document) (i : Instance) (ss : List Descriptor) : Prop where
  /-- The document is well-formed. -/
  wellFormed : d.WellFormed
  /-- The updater's bindings are those of the descriptors. -/
  bound : d.bindAll i.root ss = .ok i.updater.bindings

/-! ## Binding -/

/-- All members have an outcome if the first one has and all others have. -/
theorem mapM_cons_eq_ok_iff {α β ε : Type} {f : α → Except ε β} {x : α} {xs : List α}
    {ys : List β} : (x :: xs).mapM f = .ok ys ↔
      ∃ y rest, f x = .ok y ∧ xs.mapM f = .ok rest ∧ ys = y :: rest := by
  rw [List.mapM_cons]
  cases f x with
  | error e => simp [bind, Except.bind]
  | ok y =>
    cases xs.mapM f with
    | error e => simp [bind, Except.bind]
    | ok rest => simp [bind, Except.bind, pure, Except.pure, eq_comm]

/-- Every outcome is that of a member. -/
theorem exists_of_mem_mapM {α β ε : Type} {f : α → Except ε β} {xs : List α} {ys : List β}
    (h : xs.mapM f = .ok ys) {y : β} (hy : y ∈ ys) : ∃ x ∈ xs, f x = .ok y := by
  induction xs generalizing ys with
  | nil =>
    obtain rfl := Except.ok.inj h
    cases hy
  | cons x xs ih =>
    obtain ⟨z, rest, hz, hrest, rfl⟩ := mapM_cons_eq_ok_iff.1 h
    rcases List.mem_cons.1 hy with rfl | hy
    · exact ⟨x, List.mem_cons_self, hz⟩
    · obtain ⟨x', hx', hf⟩ := ih hrest hy
      exact ⟨x', List.mem_cons_of_mem x hx', hf⟩

namespace Document

theorem bindAll_cons_eq_ok_iff {d : Document} {root : Handle} {s : Descriptor}
    {ss : List Descriptor} {bs : List Binding} :
    d.bindAll root (s :: ss) = .ok bs ↔
      ∃ h rest, d.nodeAt root s.address = .ok h ∧ d.bindAll root ss = .ok rest ∧
        bs = ⟨h, s.target⟩ :: rest := by
  unfold bindAll
  rw [mapM_cons_eq_ok_iff, bind]
  cases d.nodeAt root s.address with
  | error e => simp [Except.map]
  | ok h => simp [Except.map]

/-- A binding is that of a descriptor. -/
theorem exists_of_mem_bindAll {d : Document} {root : Handle} {ss : List Descriptor}
    {bs : List Binding} (hb : d.bindAll root ss = .ok bs) {b : Binding} (hmem : b ∈ bs) :
    ∃ s ∈ ss, d.nodeAt root s.address = .ok b.node ∧ b.target = s.target := by
  obtain ⟨s, hs, hbind⟩ := exists_of_mem_mapM hb hmem
  refine ⟨s, hs, ?_⟩
  unfold bind at hbind
  cases hnode : d.nodeAt root s.address with
  | error e =>
    rw [hnode] at hbind
    cases hbind
  | ok h =>
    rw [hnode] at hbind
    obtain rfl := Except.ok.inj hbind
    exact ⟨rfl, rfl⟩

/-- Descriptors are bound alike where their addresses name the same nodes. -/
theorem bindAll_congr {d d' : Document} {root root' : Handle} {ss : List Descriptor}
    (h : ∀ s ∈ ss, ∀ x, d.nodeAt root s.address = .ok x → d'.nodeAt root' s.address = .ok x)
    {bs : List Binding} (hb : d.bindAll root ss = .ok bs) : d'.bindAll root' ss = .ok bs := by
  induction ss generalizing bs with
  | nil => exact hb
  | cons s ss ih =>
    obtain ⟨x, rest, hx, hrest, rfl⟩ := bindAll_cons_eq_ok_iff.1 hb
    have hnext := ih (fun s' hs' => h s' (List.mem_cons_of_mem s hs')) hrest
    exact bindAll_cons_eq_ok_iff.2 ⟨x, rest, h s List.mem_cons_self _ hx, hnext, rfl⟩

/-- Descriptors that reach nodes of a tree can be bound to every copy of it. -/
theorem exists_bindAll {d : Document} {root : Handle} {t : Tree Content}
    (ht : d.shape? root = some t) {ss : List Descriptor} (hs : ∀ s ∈ ss, s.Reaches t) :
    ∃ bs, d.bindAll root ss = .ok bs := by
  induction ss with
  | nil => exact ⟨[], rfl⟩
  | cons s ss ih =>
    obtain ⟨rest, hrest⟩ := ih fun x hx => hs x (List.mem_cons_of_mem s hx)
    obtain ⟨n, hn, rfl⟩ := Option.map_eq_some_iff.1 ht
    have hreach : ((n.at? s.address.places).map (Tree.map Node.content)).isSome := by
      rw [← Tree.at?_map]
      exact hs s List.mem_cons_self
    obtain ⟨m, hm⟩ := Option.isSome_iff_exists.1 (Option.isSome_map ▸ hreach)
    have hat : d.nodeAt root s.address = .ok m.label.handle :=
      nodeAt_eq_ok_iff.2 ⟨n, m, hn, hm, rfl⟩
    exact ⟨_, bindAll_cons_eq_ok_iff.2 ⟨_, rest, hat, hrest, rfl⟩⟩

/-! ## Updating -/

/-- Writing through the bindings of descriptors fills the tree under the root. -/
theorem foldl_apply {d : Document} (hd : d.WellFormed) (v : Value) {root : Handle}
    {ss : List Descriptor} {bs : List Binding} (hb : d.bindAll root ss = .ok bs) :
    (bs.foldl (Binding.apply · v ·) d).WellFormed ∧
      (∀ a h, d.nodeAt root a = .ok h →
        (bs.foldl (Binding.apply · v ·) d).nodeAt root a = .ok h) ∧
      (bs.foldl (Binding.apply · v ·) d).shape? root = (d.shape? root).map (Tree.fill v ss) := by
  induction ss generalizing d bs with
  | nil =>
    obtain rfl := Except.ok.inj hb
    exact ⟨hd, fun _ _ h => h, Option.map_id'.symm⟩
  | cons s ss ih =>
    obtain ⟨h, rest, hh, hrest, rfl⟩ := bindAll_cons_eq_ok_iff.1 hb
    -- the first binding is written, and the others are bound to the same nodes afterwards
    have hkeep : ∀ a x, d.nodeAt root a = .ok x →
        (Binding.apply d v ⟨h, s.target⟩).nodeAt root a = .ok x :=
      fun a x hx => nodeAt_writeNode hd hx _ _
    obtain ⟨hwf, hnode, hshape⟩ := ih (hd.writeNode h _)
      (bindAll_congr (fun s' _ => hkeep s'.address) hrest)
    refine ⟨hwf, fun a x hx => hnode a x (hkeep a x hx), ?_⟩
    rw [List.foldl_cons]
    refine hshape.trans ?_
    rw [shape?_writeNode hd hh, Option.map_map]
    rfl

/-- **An update keeps an instance bound** to the nodes of its copy. -/
theorem Attached.update {d : Document} {i : Instance} {ss : List Descriptor}
    (h : d.Attached i ss) (v : Value) : (d.update i.updater v).Attached i ss :=
  have ⟨hwf, hnode, _⟩ := foldl_apply h.wellFormed v h.bound
  ⟨hwf, bindAll_congr (fun s _ => hnode s.address) h.bound⟩

/-- **An update fills the tree that an instance is.** -/
theorem Attached.shape?_update {d : Document} {i : Instance} {ss : List Descriptor}
    (h : d.Attached i ss) (v : Value) :
    (d.update i.updater v).shape? i.root = (d.shape? i.root).map (Tree.fill v ss) :=
  (foldl_apply h.wellFormed v h.bound).2.2

end Document

/-! ## Instances -/

theorem Updater.allBindings_bound (bs : List Binding) :
    Updater.allBindings (bs.map .bound) = bs := by
  induction bs with
  | nil => rfl
  | cons b bs ih => rw [List.map_cons, allBindings, bindings, ih, List.singleton_append]

/-- **A template has instances when its descriptors reach its skeleton**, and an instance is the
skeleton filled with the data. -/
theorem Template.instantiate_attached {t : Template} {s : Tree Content}
    (hs : t.skeleton = some s) (hr : ∀ x ∈ t.descriptors, x.Reaches s) {d : Document}
    (hd : d.WellFormed) (data : Option Value) :
    ∃ d' i, t.instantiate d data = (d', .ok i) ∧ d'.Attached i t.descriptors ∧
      d'.shape? i.root = some (s.fillGiven data t.descriptors) := by
  have hshape := Document.shape?_plant hd s
  obtain ⟨bs, hbs⟩ := Document.exists_bindAll hshape hr
  have hplanted : (d.plant s).1.Attached ⟨(d.plant s).2, .collection (bs.map .bound)⟩
      t.descriptors :=
    ⟨hd.plant s, by rw [hbs, Updater.bindings, Updater.allBindings_bound]⟩
  cases data with
  | none => exact ⟨_, _, by simp only [instantiate, hs, hbs], hplanted, hshape⟩
  | some v =>
    by_cases hv : v.isNull
    · refine ⟨_, _, by simp only [instantiate, hs, hbs, hv, if_true], hplanted, ?_⟩
      rw [Tree.fillGiven, if_pos hv, hshape]
    · refine ⟨_, _, by simp only [instantiate, hs, hbs, if_neg hv], hplanted.update v, ?_⟩
      rw [Tree.fillGiven, if_neg hv, hplanted.shape?_update v, hshape, Option.map_some]

end MarkupTemplate
