import MarkupTemplate.Proofs.Document.Extension
import MarkupTemplate.Proofs.Template.Rendering

/-!
# Instances are isolated

Many instances, of one template or of several, are made in one document and updated in any order.
Each is a tree of its own beside the trees that were there before, and its updater is bound to nodes
of this tree. So an update shows in its own instance alone, and each instance is at any time what a
new one would be that is made with the data it was given last.

The data that each was given last is the `ledger` of the calls, which is kept without any document.
What holds between two calls is `Workspace.Consistent`.

Results:
* `Template.instantiate_extends`: an instance is one more tree beside those made before.
* `Consistent.update`: an update is entered in the ledger, and done to one tree.
* `instances_are_isolated`: each instance is a fresh instance with its own last data, no node is in
  two of them, and the old nodes are as they were.
-/

namespace MarkupTemplate

/-! ## Calls -/

/-- What is done with instances. They are named by their place among those made so far. -/
inductive InstanceCall where
  /-- A template gets an instance, with data or without. -/
  | instantiate (t : Template) (data : Option Value)
  /-- An instance is updated, if there is one. -/
  | update (k : Nat) (v : Value)

/-- A document, and the instances that were made in it, in order. -/
structure Workspace where
  /-- The document. -/
  doc : Document
  /-- The instances. -/
  instances : List Instance := []

namespace Workspace

/-- The workspace after a call, as far as it goes where it fails. -/
def call (w : Workspace) : InstanceCall → Workspace
  | .instantiate t data =>
    match t.instantiate w.doc data with
    | (doc, .ok i) => { doc, instances := w.instances ++ [i] }
    | (doc, .error _) => { w with doc }
  | .update k v =>
    match w.instances[k]? with
    | some i => { w with doc := w.doc.update i.updater v }
    | none => w

/-- The workspace after calls, one after the other. -/
def run (w : Workspace) (calls : List InstanceCall) : Workspace :=
  calls.foldl call w

end Workspace

/-- The data that an update with `v` leaves: that of an empty record if `v` is absent. -/
def Value.orEmpty (v : Value) : Value :=
  if v.isNull then .hash [] else v

/-- Data that is not absent is left as it is. -/
theorem Value.map_orEmpty_filter (data : Option Value) :
    (data.filter fun v => !v.isNull).map orEmpty = data.filter fun v => !v.isNull := by
  cases data with
  | none => rfl
  | some v => cases hv : v.isNull <;> simp [Option.filter, orEmpty, hv]

/-- For each instance its template and the data that it was given last, if any. -/
abbrev Ledger := List (Template × Option Value)

/-- The ledger after a call. Absent data that an instance is made with is not given to it. -/
def Ledger.enter (l : Ledger) : InstanceCall → Ledger
  | .instantiate t data => l ++ [(t, data.filter fun v => !v.isNull)]
  | .update k v => l.modify k fun x => (x.1, some v.orEmpty)

/-- The ledger of calls, one after the other. -/
def Ledger.ofCalls (calls : List InstanceCall) : Ledger :=
  calls.foldl enter []

/-! ## Templates -/

/-- The template was made from a node of some document, or written as markup or as a call site. -/
inductive Template.Built : Template → Prop
  /-- It was made from a node. -/
  | ofNode (source : Document) (h : Handle) : Built (.ofNode source h)
  /-- It was written. -/
  | authored {t : Template} (h : t.Authored) : Built t

/-- A template that was built has a skeleton, and its descriptors fit it. -/
theorem Template.Built.exists_skeleton {t : Template} (ht : t.Built) :
    ∃ k, t.skeleton = some k ∧ ∀ s ∈ t.descriptors, s.Fits k := by
  cases ht with
  | ofNode source h =>
    unfold Template.ofNode
    cases source.shape? h with
    | none => exact ⟨_, rfl, fun s hs => absurd hs List.not_mem_nil⟩
    | some tree => exact tree.fits_ofTree
  | authored h =>
    obtain ⟨k, hk, -, hfits⟩ := h.exists_skeleton
    exact ⟨_, hk, hfits⟩

/-- An instance that was given the data last is filled as a new one that is made with it. -/
theorem Tree.fillGiven_orEmpty (given : Option Value) (ss : List Descriptor) (t : Tree Content) :
    t.fillGiven (given.map Value.orEmpty) ss = t.filled given ss := by
  cases given with
  | none => rfl
  | some v =>
    rw [Option.map_some, fillGiven, Value.orEmpty]
    by_cases hv : v.isNull = true
    · obtain rfl := Value.isNull_iff.1 hv
      exact (Tree.fill_null ss t).symm
    · rw [if_neg hv, if_neg hv]
      rfl

/-- The template was built, and its instance was given the data last. -/
def Template.Holds (t : Template) (d : Document) (i : Instance) (data : Option Value) : Prop :=
  t.Built ∧ ∃ given, t.BoundTo i d given ∧ given.map Value.orEmpty = data

theorem Template.Holds.elsewhere {t : Template} {d d' : Document} {i : Instance}
    {data : Option Value} (h : t.Holds d i data) (hd : d'.WellFormed)
    (hi : d'.tree? i.root = d.tree? i.root) : t.Holds d' i data :=
  have ⟨ht, given, hbound, hgiven⟩ := h
  ⟨ht, given, hbound.elsewhere hd hi, hgiven⟩

theorem Template.Holds.update {t : Template} {d : Document} {i : Instance} {data : Option Value}
    (h : t.Holds d i data) (v : Value) : t.Holds (d.update i.updater v) i (some v.orEmpty) :=
  have ⟨ht, _, hbound, _⟩ := h
  ⟨ht, some v, hbound.update v, rfl⟩

/-- **An instance is what a new one would be** that is made with its last data. -/
theorem Template.Holds.fresh {t : Template} {d : Document} {i : Instance} {data : Option Value}
    (h : t.Holds d i data) :
    ∃ x, d.shape? i.root = some x ∧ (data = none → t.skeleton = some x) ∧
      ∀ d₀ : Document, d₀.WellFormed →
        ∃ d₁ j, t.instantiate d₀ data = (d₁, .ok j) ∧ d₁.shape? j.root = some x := by
  obtain ⟨ht, given, hbound, rfl⟩ := h
  obtain ⟨k, hk, hfits⟩ := ht.exists_skeleton
  obtain ⟨-, hshape⟩ := hbound.attached hk hfits
  refine ⟨_, hshape, ?_, fun d₀ hd₀ => ?_⟩
  · intro hnone
    rw [Option.map_eq_none_iff.1 hnone]
    exact hk
  · obtain ⟨d₁, j, hj, -, hfresh⟩ := instantiate_attached hk (fun s hs => (hfits s hs).reaches) hd₀
      (given.map Value.orEmpty)
    exact ⟨d₁, j, hj, hfresh.trans (congrArg some (k.fillGiven_orEmpty given t.descriptors))⟩

/-! ## Instances side by side -/

/-- Bindings are in the tree under the root. -/
theorem Document.WellFormed.node_mem_handles {d : Document} (hd : d.WellFormed) {root : Handle}
    {t : Tree Node} (ht : d.tree? root = some t) {ss : List Descriptor} {bs : List Binding}
    (hb : d.bindAll root ss = .ok bs) : ∀ b ∈ bs, b.node ∈ t.handles := by
  intro b hmem
  obtain ⟨s, -, hnode, -⟩ := exists_of_mem_bindAll hb hmem
  obtain ⟨t', n, ht', hat, hn⟩ := nodeAt_eq_ok_iff.1 hnode
  obtain rfl := Option.some.inj (ht.symm.trans ht')
  exact hn ▸ Tree.mem_handles_of_at? (nodup_handles_of_tree? hd ht) hat

/-- **An instance is one more tree** beside those made before, which stay as they are. -/
theorem Template.instantiate_extends {t : Template} {s : Tree Content} (hs : t.skeleton = some s)
    (hfits : ∀ x ∈ t.descriptors, x.Fits s) {d d' : Document} {made : Forest Node}
    (he : d.Extends d' made) (data : Option Value) :
    ∃ d'' i made', t.instantiate d' data = (d'', .ok i) ∧ d.Extends d'' made' ∧
      made'.rootHandles = made.rootHandles ++ [i.root] ∧
      ∀ j x, made.tree? j = some x → made'.tree? j = some x := by
  have hplanted := he.plant s
  obtain ⟨bs, hbs⟩ := Document.exists_bindAll (Document.shape?_plant he.wellFormed s)
    fun x hx => (hfits x hx).reaches
  have hroots : (made ++ s.toForest.number d'.next).rootHandles =
      made.rootHandles ++ [(d'.plant s).2] := Forest.rootHandles_append _ _
  have hold : ∀ j x, made.tree? j = some x → (made ++ s.toForest.number d'.next).tree? j = some x :=
    fun j x hx => Forest.tree?_append_of_some hx _
  let i : Instance := ⟨(d'.plant s).2, .collection (bs.map .bound)⟩
  cases data with
  | none => exact ⟨_, i, _, by simp only [instantiate, hs, hbs, i], hplanted, hroots, hold⟩
  | some v =>
    by_cases hv : v.isNull
    · exact ⟨_, i, _, by simp only [instantiate, hs, hbs, hv, if_true, i], hplanted, hroots, hold⟩
    · -- the new tree is the last one, and the updater is bound to its nodes
      have hlast : (made ++ s.toForest.number d'.next).tree? made.width =
          some ⟨⟨d'.next, s.label⟩, s.children.number (d'.next + 1)⟩ :=
        Forest.tree?_append_width made _ 0
      have hbound := hplanted.wellFormed.node_mem_handles (hplanted.tree?_made hlast) hbs
      have hbindings : i.updater.bindings = bs := by
        rw [Updater.bindings, Updater.allBindings_bound]
      obtain ⟨made', he', hsame⟩ := hplanted.update hlast (hbindings ▸ hbound) v
      refine ⟨_, i, made', by simp only [instantiate, hs, hbs, if_neg hv, i], he',
        hsame.rootHandles.trans hroots, fun j x hx => ?_⟩
      have hj : j < made.width := Forest.lt_width_of_tree? hx
      rw [hsame.others j (Nat.ne_of_lt hj), hold j x hx]

namespace Workspace

/-- The state between two calls, in a document that was `d` at the start. -/
structure Consistent (d : Document) (w : Workspace) (l : Ledger) : Prop where
  /-- The instances are new trees beside the old ones. -/
  made : ∃ made, d.Extends w.doc made ∧ made.rootHandles = w.instances.map Instance.root
  /-- Each is in the ledger. -/
  length : w.instances.length = l.length
  /-- It holds what the ledger says. -/
  holds : ∀ (k : Nat) (i : Instance) (t : Template) (data : Option Value),
    w.instances[k]? = some i → l[k]? = some (t, data) → t.Holds w.doc i data

theorem consistent_start {d : Document} (hd : d.WellFormed) : Consistent d { doc := d } [] where
  made := ⟨.nil, hd.extends_self, rfl⟩
  length := rfl
  holds := fun _ _ _ _ hi => by cases hi

/-- The tree of an instance. -/
theorem exists_tree {w : Workspace} {made : Forest Node}
    (hroots : made.rootHandles = w.instances.map Instance.root) {k : Nat} {i : Instance}
    (hi : w.instances[k]? = some i) : ∃ t, made.tree? k = some t ∧ t.label.handle = i.root := by
  have hroot := made.getElem?_rootHandles k
  rw [hroots, List.getElem?_map, hi, Option.map_some] at hroot
  exact Option.map_eq_some_iff.1 hroot.symm

section

variable {d : Document} {w : Workspace} {l : Ledger} (h : Consistent d w l)

include h

/-- **A new instance is entered in the ledger**, and nothing is done to the others. -/
theorem Consistent.instantiate {t : Template} (ht : t.Built) (data : Option Value) :
    Consistent d (w.call (.instantiate t data)) (l.enter (.instantiate t data)) := by
  obtain ⟨made, he, hroots⟩ := h.made
  obtain ⟨s, hs, hfits⟩ := ht.exists_skeleton
  obtain ⟨d', i, made', hi, he', hroots', hold⟩ := Template.instantiate_extends hs hfits he data
  have hcall : w.call (.instantiate t data) = ⟨d', w.instances ++ [i]⟩ := by
    simp only [call, hi]
  rw [hcall, Ledger.enter]
  refine ⟨⟨made', he', ?_⟩, ?_, fun j i' t' data' hi' hentry => ?_⟩
  · rw [hroots', hroots, List.map_append, List.map_singleton]
  · rw [List.length_append, List.length_append, h.length, List.length_singleton,
      List.length_singleton]
  · by_cases hj : j < w.instances.length
    · rw [List.getElem?_append_left hj] at hi'
      rw [List.getElem?_append_left (h.length ▸ hj)] at hentry
      obtain ⟨x, hx, hroot⟩ := exists_tree hroots hi'
      refine (h.holds j i' t' data' hi' hentry).elsewhere he'.wellFormed ?_
      rw [← hroot, he.tree?_made hx, he'.tree?_made (hold j x hx)]
    · obtain rfl : j = w.instances.length := by
        have := (List.getElem?_eq_some_iff.1 hi').1
        rw [List.length_append, List.length_singleton] at this
        omega
      rw [List.getElem?_concat_length] at hi'
      rw [h.length, List.getElem?_concat_length] at hentry
      obtain rfl := Option.some.inj hi'
      obtain ⟨rfl, rfl⟩ := Prod.mk.inj (Option.some.inj hentry)
      exact ⟨ht, _, .instantiate data he.wellFormed hi, Value.map_orEmpty_filter data⟩

/-- The updater of an instance is bound to nodes of its tree. -/
theorem Consistent.node_mem {k : Nat} {i : Instance} (hi : w.instances[k]? = some i) {x : Tree Node}
    (hx : w.doc.tree? i.root = some x) : ∀ b ∈ i.updater.bindings, b.node ∈ x.handles := by
  have hk : k < l.length := h.length ▸ (List.getElem?_eq_some_iff.1 hi).1
  obtain ⟨ht, given, hbound, -⟩ := h.holds k i _ _ hi (List.getElem?_eq_getElem hk)
  obtain ⟨s, hs, hfits⟩ := ht.exists_skeleton
  obtain ⟨hattached, -⟩ := hbound.attached hs hfits
  exact hattached.wellFormed.node_mem_handles hx hattached.bound

/-- **An update is entered in the ledger**, and done to one tree. -/
theorem Consistent.update (k : Nat) (v : Value) :
    Consistent d (w.call (.update k v)) (l.enter (.update k v)) := by
  unfold call Ledger.enter
  dsimp only
  cases hi : w.instances[k]? with
  | none =>
    rw [List.modify_eq_self (h.length ▸ List.getElem?_eq_none_iff.1 hi)]
    exact h
  | some i =>
    obtain ⟨made, he, hroots⟩ := h.made
    obtain ⟨x, hx, hroot⟩ := exists_tree hroots hi
    obtain ⟨made', he', hsame⟩ := he.update hx (h.node_mem hi (hroot ▸ he.tree?_made hx)) v
    refine ⟨⟨made', he', hsame.rootHandles.trans hroots⟩,
      by rw [List.length_modify]; exact h.length, fun j i' t data hi' hentry => ?_⟩
    by_cases hj : k = j
    · subst hj
      obtain rfl := Option.some.inj (hi.symm.trans hi')
      rw [List.getElem?_modify_eq] at hentry
      obtain ⟨⟨t', data'⟩, hentry', heq⟩ := Option.map_eq_some_iff.1 hentry
      obtain ⟨rfl, rfl⟩ := Prod.mk.inj heq
      exact (h.holds k i t' data' hi hentry').update v
    · rw [List.getElem?_modify_ne _ _ hj] at hentry
      obtain ⟨y, hy, hroot'⟩ := exists_tree hroots hi'
      have hy' : made'.tree? j = some y := (hsame.others j (Ne.symm hj)).trans hy
      refine (h.holds j i' t data hi' hentry).elsewhere he'.wellFormed ?_
      rw [← hroot', he.tree?_made hy, he'.tree?_made hy']

/-- **A call keeps a workspace consistent**, if its template was built. -/
theorem Consistent.call {call : InstanceCall}
    (hcall : ∀ t data, call = .instantiate t data → t.Built) :
    Consistent d (w.call call) (l.enter call) := by
  cases call with
  | instantiate t data => exact h.instantiate (hcall t data rfl) data
  | update k v => exact h.update k v

/-- **So do any calls**, one after the other. -/
theorem Consistent.run {calls : List InstanceCall}
    (hcalls : ∀ t data, .instantiate t data ∈ calls → t.Built) :
    Consistent d (w.run calls) (calls.foldl Ledger.enter l) := by
  induction calls generalizing w l with
  | nil => exact h
  | cons call calls ih =>
    refine ih (h.call fun t data hcall => ?_) fun t data hmem => ?_
    · exact hcalls t data (hcall ▸ List.mem_cons_self)
    · exact hcalls t data (List.mem_cons_of_mem call hmem)

end

/-- **Instances are isolated.** Any templates get instances in a document, and the instances are
updated, in any order. Afterwards each instance is what a fresh instance of its template is, in any
document, that is made with the data that this instance was given last, and the bare skeleton if it
was given none. No node is in two instances, or in an instance and in what was there before; and
under the old nodes, and above them, all is as it was. -/
theorem instances_are_isolated {d : Document} (hd : d.WellFormed) {calls : List InstanceCall}
    (hcalls : ∀ t data, .instantiate t data ∈ calls → t.Built) :
    let after := Workspace.run { doc := d } calls
    let ledger := Ledger.ofCalls calls
    after.instances.length = ledger.length ∧
      (∀ (k : Nat) (i : Instance) (t : Template) (data : Option Value),
        after.instances[k]? = some i → ledger[k]? = some (t, data) →
        ∃ x, after.doc.shape? i.root = some x ∧ (data = none → t.skeleton = some x) ∧
          ∀ d₀ : Document, d₀.WellFormed →
            ∃ d₁ j, t.instantiate d₀ data = (d₁, .ok j) ∧ d₁.shape? j.root = some x) ∧
      (∀ (j k : Nat) (i i' : Instance), after.instances[j]? = some i →
        after.instances[k]? = some i' → j ≠ k →
        ∀ h ∈ after.doc.descendants i.root, h ∉ after.doc.descendants i'.root) ∧
      (∀ i ∈ after.instances, ∀ h ∈ after.doc.descendants i.root, d.next ≤ h) ∧
      ∀ h < d.next, after.doc.tree? h = d.tree? h ∧ after.doc.parent? h = d.parent? h := by
  intro after ledger
  have h : Consistent d after ledger := (consistent_start hd).run hcalls
  obtain ⟨made, he, hroots⟩ := h.made
  refine ⟨h.length, fun k i t data hi hentry => (h.holds k i t data hi hentry).fresh, ?_, ?_,
    fun x hx => ⟨he.tree?_old hx, he.parent?_old hx⟩⟩
  · intro j k i i' hi hi' hne x hx
    obtain ⟨s, hs, hroot⟩ := exists_tree hroots hi
    obtain ⟨t, ht, hroot'⟩ := exists_tree hroots hi'
    rw [← hroot, he.descendants_made hs] at hx
    rw [← hroot', he.descendants_made ht]
    exact he.apart hs ht hne hx
  · intro i hi x hx
    obtain ⟨k, hk⟩ := List.mem_iff_getElem?.1 hi
    obtain ⟨s, hs, hroot⟩ := exists_tree hroots hk
    rw [← hroot, he.descendants_made hs] at hx
    exact he.fresh x (Forest.mem_handles_of_tree? he.nodup.1 hs hx)

/-- Two instances of a paragraph: the first one loses its data, the second one is given some. -/
theorem instances_are_isolated_paragraph :
    let source : Document :=
      { forest := .cons ⟨0, .element { tag := "p", attributes := .ofList [("t", "{a}")] }⟩
          (.cons ⟨1, .text "x{a}"⟩ .nil .nil) .nil, next := 2 }
    let t := Template.ofNode source 0
    let d : Document := { forest := .cons ⟨0, .text "old"⟩ .nil .nil, next := 1 }
    let v := Value.ofPairs [("a", .string "1")]
    let w := Value.ofPairs [("a", .string "2")]
    let calls := [.instantiate t (some v), .instantiate t none, .update 1 w, .update 0 .null]
    let after := Workspace.run { doc := d } calls
    let shown (s : String) : Tree Content :=
      ⟨.element { tag := "p", attributes := .ofList [("t", s)] },
        .cons (.text "x") .nil (.cons (.text s) .nil .nil)⟩
    d.WellFormed ∧ (∀ t data, .instantiate t data ∈ calls → t.Built) ∧
      after.instances.map Instance.root = [1, 4] ∧
      after.doc.shape? 1 = some (shown "") ∧ after.doc.shape? 4 = some (shown "2") ∧
      (∃ d₁ i, t.instantiate .empty (some (.hash [])) = (d₁, .ok i) ∧
        d₁.shape? i.root = some (shown "")) ∧
      (∃ d₁ i, t.instantiate .empty (some w) = (d₁, .ok i) ∧ d₁.shape? i.root = some (shown "2")) ∧
      (∀ h ∈ after.doc.descendants 1, h ∉ after.doc.descendants 4) ∧
      after.doc.tree? 0 = d.tree? 0 := by
  intro source t d v w calls after shown
  have hd : d.WellFormed := ⟨by decide, by decide⟩
  have hcalls : ∀ t' data, .instantiate t' data ∈ calls → t'.Built := by
    intro t' data hmem
    have ht : t' = t ∧ data = some v ∨ t' = t ∧ data = none := by simpa [calls] using hmem
    rcases ht with ⟨rfl, -⟩ | ⟨rfl, -⟩ <;> exact .ofNode source 0
  have hroots : after.instances.map Instance.root = [1, 4] := by decide +kernel
  have hfirst : after.doc.shape? 1 = some (shown "") := by decide +kernel
  have hsecond : after.doc.shape? 4 = some (shown "2") := by decide +kernel
  obtain ⟨-, hfresh, hapart, -, hold⟩ := instances_are_isolated hd hcalls
  obtain ⟨i, rest, hi, hroot, hrest⟩ := List.map_eq_cons_iff.1 hroots
  obtain ⟨j, rfl, hroot'⟩ := List.map_eq_singleton_iff.1 hrest
  have hi₀ : after.instances[0]? = some i := by rw [hi]; rfl
  have hi₁ : after.instances[1]? = some j := by rw [hi]; rfl
  obtain ⟨x, hx, -, hempty⟩ := hfresh 0 i t (some (.hash [])) hi₀ rfl
  obtain ⟨y, hy, -, hgiven⟩ := hfresh 1 j t (some w) hi₁ rfl
  rw [hroot] at hx
  rw [hroot'] at hy
  obtain rfl := Option.some.inj (hx.symm.trans hfirst)
  obtain rfl := Option.some.inj (hy.symm.trans hsecond)
  refine ⟨hd, hcalls, hroots, hfirst, hsecond, hempty _ Document.wellFormed_empty,
    hgiven _ Document.wellFormed_empty, ?_, (hold 0 (by decide)).1⟩
  have := hapart 0 1 i j hi₀ hi₁ (by decide)
  rwa [hroot, hroot'] at this

end Workspace

end MarkupTemplate
