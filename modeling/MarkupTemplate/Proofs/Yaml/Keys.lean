import MarkupTemplate.Proofs.Value.Record
import MarkupTemplate.Yaml.Node.Reader

/-!
# Keys of nodes

No mapping that is read from a text has a key twice, however deep it is inside its document, since
the nodes of a mapping are written as entries one by one. A reference stands for a copy of the node
that it names, so what is to be kept while a document is read is that all nodes with an anchor are
of this kind, and the readers call each other, so this is shown for all of them at once, by
induction on their fuel (`ReadsDistinct`).

Results:
* `distinctKeys_ofNodes`: a mapping of nodes has each key once.
* `readsDistinct`: the readers make no other nodes, and give no others an anchor.
* `distinctKeys_of_nodes?`: so the documents of a text have none.
-/

namespace MarkupTemplate

theorem Entries.mem_of_mem_ofList {κ ν : Type} [DecidableEq κ] {written : List (κ × ν)} {e : κ × ν}
    (h : e ∈ ofList written) : e ∈ written := by
  rw [ofList_eq_lasting] at h
  induction written with
  | nil => exact h
  | cons f written ih =>
    rw [lasting] at h
    split at h
    · exact List.mem_cons_of_mem f (ih h)
    · rcases List.mem_cons.1 h with rfl | h
      · exact List.mem_cons_self
      · exact List.mem_cons_of_mem f (ih h)

namespace Yaml

namespace Node

/-! ## Nodes inside a node -/

/-- The nodes that a list or a mapping is made of. -/
def parts : Node → List Node
  | sequence items => items
  | mapping entries => entries.flatMap fun e => [e.1, e.2]
  | _ => []

/-- A node occurs in itself, and in whatever it occurs in a part of: in a list, in what a mapping
holds, and in a key. -/
inductive Within (x : Node) : Node → Prop
  /-- It is the node itself. -/
  | self : Within x x
  /-- It is somewhere in a part of the node. -/
  | part {y z : Node} (hy : y ∈ z.parts) (hx : Within x y) : Within x z

/-- No mapping in a node has a key twice. -/
def DistinctKeys (y : Node) : Prop :=
  ∀ es, (mapping es).Within y → (Entries.keys es).Nodup

theorem mem_parts_mapping {es : List (Node × Node)} {x : Node} :
    x ∈ (mapping es).parts ↔ ∃ e ∈ es, x = e.1 ∨ x = e.2 := by
  simp [parts]

theorem key_mem_parts {es : List (Node × Node)} {e : Node × Node} (he : e ∈ es) :
    e.1 ∈ (mapping es).parts :=
  mem_parts_mapping.2 ⟨e, he, .inl rfl⟩

theorem value_mem_parts {es : List (Node × Node)} {e : Node × Node} (he : e ∈ es) :
    e.2 ∈ (mapping es).parts :=
  mem_parts_mapping.2 ⟨e, he, .inr rfl⟩

theorem Within.trans {x y z : Node} (hxy : x.Within y) (hyz : y.Within z) : x.Within z := by
  induction hyz with
  | self => exact hxy
  | part hy _ ih => exact .part hy ih

theorem DistinctKeys.of_within {x y : Node} (hy : y.DistinctKeys) (h : x.Within y) :
    x.DistinctKeys :=
  fun es hes => hy es (hes.trans h)

theorem DistinctKeys.of_mem_parts {x y : Node} (hy : y.DistinctKeys) (h : x ∈ y.parts) :
    x.DistinctKeys :=
  hy.of_within (.part h .self)

/-! ## Nodes without a key twice -/

/-- It is enough that the node and its parts have none. -/
theorem distinctKeys_of_parts {y : Node} (hy : ∀ es, y = mapping es → (Entries.keys es).Nodup)
    (hparts : ∀ x ∈ y.parts, x.DistinctKeys) : y.DistinctKeys := by
  intro es h
  generalize hz : mapping es = z at h
  cases h with
  | self => exact hy es hz.symm
  | part hx h => exact hparts _ hx es (hz ▸ h)

theorem distinctKeys_sequence {items : List Node} (h : ∀ x ∈ items, x.DistinctKeys) :
    (sequence items).DistinctKeys :=
  distinctKeys_of_parts (fun _ he => Node.noConfusion he) h

theorem mem_of_mem_pairs {nodes : List Node} {e : Node × Node} (he : e ∈ pairs nodes) :
    e.1 ∈ nodes ∧ e.2 ∈ nodes := by
  fun_induction pairs nodes with
  | case1 => cases he
  | case2 rest ih => exact (ih he).imp (List.mem_cons_of_mem _) (List.mem_cons_of_mem _)
  | case3 => cases he
  | case4 k _ x rest ih =>
    rcases List.mem_cons.1 he with rfl | he
    · simp
    · have := ih he
      simp [this]

/-- A mapping of nodes has each key once. -/
theorem distinctKeys_ofNodes {nodes : List Node} (h : ∀ x ∈ nodes, x.DistinctKeys) :
    (ofNodes nodes).DistinctKeys := by
  refine distinctKeys_of_parts (fun es hes => ?_) fun x hx => ?_
  · obtain rfl := mapping.inj hes
    exact Entries.nodup_keys_ofList _
  · obtain ⟨e, he, hx⟩ := mem_parts_mapping.1 hx
    obtain ⟨hkey, hvalue⟩ := mem_of_mem_pairs (Entries.mem_of_mem_ofList he)
    rcases hx with rfl | rfl
    · exact h _ hkey
    · exact h _ hvalue

/-- A node without parts has no keys. -/
theorem distinctKeys_of_leaf {y : Node} (h : y.parts = []) (hy : ∀ es, y ≠ mapping es) :
    y.DistinctKeys :=
  distinctKeys_of_parts (fun es he => absurd he (hy es)) (h ▸ List.forall_mem_nil _)

theorem distinctKeys_bad : bad.DistinctKeys :=
  distinctKeys_of_leaf rfl nofun

theorem distinctKeys_empty : empty.DistinctKeys :=
  distinctKeys_of_leaf rfl nofun

theorem distinctKeys_ofScalar (plain : Bool) (tag : Option (String × String)) (text : String) :
    (ofScalar plain tag text).DistinctKeys := by
  unfold ofScalar ofPlain ofTagged
  repeat' split
  all_goals exact distinctKeys_of_leaf rfl nofun

end Node

/-! ## What is read -/

/-- All nodes with an anchor have each key once. -/
def Reader.Sound (r : Reader) : Prop :=
  ∀ a ∈ r.anchors.nodes, a.2.DistinctKeys

/-- What is read, if anything is, has the property, and leaves the anchors in order. -/
def Yields {α : Type} (P : α → Prop) (read : Option (α × Reader)) : Prop :=
  ∀ a r, read = some (a, r) → P a ∧ r.Sound

namespace Yields

variable {α β γ : Type} {P : α → Prop} {Q : β → Prop}

theorem none : Yields P none := nofun

theorem some {a : α} {r : Reader} (ha : P a) (hr : r.Sound) : Yields P (some (a, r)) := by
  intro b s h
  obtain ⟨rfl, rfl⟩ := Prod.mk.inj (Option.some.inj h)
  exact ⟨ha, hr⟩

theorem bind {read : Option γ} {next : γ → Option (β × Reader)}
    (h : ∀ c, read = Option.some c → Yields Q (next c)) : Yields Q (read >>= next) := by
  intro b s hs
  obtain ⟨c, hc, hnext⟩ := Option.bind_eq_some_iff.1 hs
  exact h c hc b s hnext

theorem seq {read : Option (α × Reader)} {next : α × Reader → Option (β × Reader)}
    (h : Yields P read) (hnext : ∀ a r, P a → r.Sound → Yields Q (next (a, r))) :
    Yields Q (read >>= next) :=
  bind fun c hc => hnext c.1 c.2 (h c.1 c.2 hc).1 (h c.1 c.2 hc).2

end Yields

namespace Reader.Sound

variable {r : Reader} (hr : r.Sound)

include hr

/-- The anchors stay as they are while tokens are read. -/
theorem past (ts : List Token) : Sound { r with tokens := ts } := hr

theorem complete {node : Node} (hnode : node.DistinctKeys) (n? : Option Nat) :
    Sound { r with anchors := r.anchors.complete n? node } := by
  cases n? with
  | none => exact hr
  | some n => exact List.forall_mem_cons.2 ⟨hnode, hr⟩

theorem lookup? {name : String} {node : Node} (h : r.anchors.lookup? name = some node) :
    node.DistinctKeys := by
  obtain ⟨n, -, hn⟩ := Option.bind_eq_some_iff.1 h
  obtain rfl := Option.some.inj hn
  cases hnode : r.anchors.nodes.lookup n with
  | none => exact Node.distinctKeys_bad
  | some node =>
    obtain ⟨before, after, hnodes, -⟩ := List.lookup_eq_some_iff.1 hnode
    exact hr (n, node) (hnodes ▸ List.mem_append_right before List.mem_cons_self)

theorem afterComma? {first : Bool} {r' : Reader} (h : afterComma? first r = some r') :
    r'.Sound := by
  unfold Yaml.afterComma? at h
  split at h
  · exact Option.some.inj h ▸ hr
  · split at h
    · exact Option.some.inj h ▸ hr
    · cases h

theorem properties? (declared : Option (String × String)) :
    Yields (fun _ => True) (properties? declared r) := by
  unfold Yaml.properties?
  split
  · refine .bind fun _ _ => .some trivial hr
  · exact .some trivial hr
  · refine .bind fun _ _ => .some trivial hr
  · refine .bind fun _ _ => .some trivial hr
  · exact .some trivial hr

theorem bare? (props : Properties) : Yields Node.DistinctKeys (bare? props r) := by
  unfold Yaml.bare?
  split
  · exact .some (Node.distinctKeys_ofScalar _ _ _) hr
  · exact .none

end Reader.Sound

/-- The readers with this fuel make only nodes that have each key once. -/
structure ReadsDistinct (declared : Option (String × String)) (fuel : Nat) : Prop where
  /-- A node. -/
  node {r : Reader} (hr : r.Sound) (place : Place) :
    Yields Node.DistinctKeys (node? declared fuel place r)
  /-- A node after its properties. -/
  content {r : Reader} (hr : r.Sound) (place : Place) (props : Properties) :
    Yields Node.DistinctKeys (content? declared fuel place props r)
  /-- The items of a list laid out by indentation. -/
  blockItems {r : Reader} (hr : r.Sound) :
    Yields (∀ x ∈ ·, x.DistinctKeys) (blockItems? declared fuel r)
  /-- Those of a list without an indentation of its own. -/
  unindentedItems {r : Reader} (hr : r.Sound) :
    Yields (∀ x ∈ ·, x.DistinctKeys) (unindentedItems? declared fuel r)
  /-- What a key holds. -/
  held {r : Reader} (hr : r.Sound) (place : Place) :
    Yields Node.DistinctKeys (held? declared fuel place r)
  /-- The keys, and what they hold, of a mapping laid out by indentation. -/
  blockEntries {r : Reader} (hr : r.Sound) :
    Yields (∀ x ∈ ·, x.DistinctKeys) (blockEntries? declared fuel r)
  /-- The items of a bracketed list. -/
  flowItems {r : Reader} (hr : r.Sound) (first : Bool) :
    Yields (∀ x ∈ ·, x.DistinctKeys) (flowItems? declared fuel first r)
  /-- A mapping of one pair among them. -/
  pair {r : Reader} (hr : r.Sound) : Yields Node.DistinctKeys (pair? declared fuel r)
  /-- The keys, and what they hold, of a braced mapping. -/
  flowEntries {r : Reader} (hr : r.Sound) (first : Bool) :
    Yields (∀ x ∈ ·, x.DistinctKeys) (flowEntries? declared fuel first r)

variable {declared : Option (String × String)} {fuel : Nat}

theorem readsDistinct_zero : ReadsDistinct declared 0 where
  node _ _ := by rw [node?]; exact .none
  content _ _ _ := by rw [content?]; exact .none
  blockItems _ := by rw [blockItems?]; exact .none
  unindentedItems _ := by rw [unindentedItems?]; exact .none
  held _ _ := by rw [held?]; exact .none
  blockEntries _ := by rw [blockEntries?]; exact .none
  flowItems _ _ := by rw [flowItems?]; exact .none
  pair _ := by rw [pair?]; exact .none
  flowEntries _ _ := by rw [flowEntries?]; exact .none

/-- A key and what it holds are as the nodes after them are. -/
theorem forall_mem_pair {P : Node → Prop} {key value : Node} {nodes : List Node} (hkey : P key)
    (hvalue : P value) (hnodes : ∀ x ∈ nodes, P x) : ∀ x ∈ key :: value :: nodes, P x :=
  List.forall_mem_cons.2 ⟨hkey, List.forall_mem_cons.2 ⟨hvalue, hnodes⟩⟩

namespace ReadsDistinct

variable (h : ReadsDistinct declared fuel) {r : Reader} (hr : r.Sound)

include h hr

theorem node_succ (place : Place) :
    Yields Node.DistinctKeys (node? declared (fuel + 1) place r) := by
  rw [node?]
  split
  · exact .some Node.distinctKeys_empty hr
  · split
    · exact .bind fun node hnode => .some (hr.lookup? hnode) hr
    · refine (hr.properties? declared).seq fun props r _ hr => ?_
      refine (h.content hr place props).seq fun node r hnode hr => ?_
      exact .some hnode (hr.complete hnode props.anchor)

theorem content_succ (place : Place) (props : Properties) :
    Yields Node.DistinctKeys (content? declared (fuel + 1) place props r) := by
  rw [content?]
  split
  · exact .some (Node.distinctKeys_ofScalar _ _ _) hr
  · refine .seq (h.flowItems (hr.past _) true) fun items r hitems hr => ?_
    exact .some (Node.distinctKeys_sequence hitems) hr
  · refine .seq (h.flowEntries (hr.past _) true) fun nodes r hnodes hr => ?_
    exact .some (Node.distinctKeys_ofNodes hnodes) hr
  · split
    · refine .seq (h.unindentedItems hr) fun items r hitems hr => ?_
      exact .some (Node.distinctKeys_sequence hitems) hr
    · split
      · refine .seq (h.blockItems (hr.past _)) fun items r hitems hr => ?_
        exact .some (Node.distinctKeys_sequence hitems) hr
      · split
        · refine .seq (h.blockEntries (hr.past _)) fun nodes r hnodes hr => ?_
          exact .some (Node.distinctKeys_ofNodes hnodes) hr
        · exact hr.bare? props
  · exact hr.bare? props

theorem blockItems_succ :
    Yields (∀ x ∈ ·, x.DistinctKeys) (blockItems? declared (fuel + 1) r) := by
  rw [blockItems?]
  split
  · exact .some (List.forall_mem_nil _) hr
  · refine .seq (h.node (hr.past _) .blockItem) fun item r hitem hr => ?_
    refine .seq (h.blockItems hr) fun items r hitems hr => ?_
    exact .some (List.forall_mem_cons.2 ⟨hitem, hitems⟩) hr
  · exact .none

theorem unindentedItems_succ :
    Yields (∀ x ∈ ·, x.DistinctKeys) (unindentedItems? declared (fuel + 1) r) := by
  rw [unindentedItems?]
  split
  · refine .seq (h.node (hr.past _) .unindentedItem) fun item r hitem hr => ?_
    refine .seq (h.unindentedItems hr) fun items r hitems hr => ?_
    exact .some (List.forall_mem_cons.2 ⟨hitem, hitems⟩) hr
  · exact .some (List.forall_mem_nil _) hr

theorem held_succ (place : Place) :
    Yields Node.DistinctKeys (held? declared (fuel + 1) place r) := by
  rw [held?]
  split
  · exact h.node (hr.past _) place
  · exact .some Node.distinctKeys_empty hr

theorem blockEntries_succ :
    Yields (∀ x ∈ ·, x.DistinctKeys) (blockEntries? declared (fuel + 1) r) := by
  rw [blockEntries?]
  split
  · exact .some (List.forall_mem_nil _) hr
  · refine .seq (h.node (hr.past _) .blockPart) fun key r hkey hr => ?_
    refine .seq (h.held hr .blockPart) fun value r hvalue hr => ?_
    refine .seq (h.blockEntries hr) fun nodes r hnodes hr => ?_
    exact .some (forall_mem_pair hkey hvalue hnodes) hr
  · refine .seq (h.held hr .blockPart) fun value r hvalue hr => ?_
    refine .seq (h.blockEntries hr) fun nodes r hnodes hr => ?_
    exact .some (forall_mem_pair Node.distinctKeys_empty hvalue hnodes) hr
  · exact .none

theorem flowItems_succ (first : Bool) :
    Yields (∀ x ∈ ·, x.DistinctKeys) (flowItems? declared (fuel + 1) first r) := by
  rw [flowItems?]
  split
  · exact .some (List.forall_mem_nil _) hr
  · refine .bind fun r' hr' => ?_
    replace hr := hr.afterComma? hr'
    split
    · exact .some (List.forall_mem_nil _) hr
    · refine .seq (h.pair (hr.past _)) fun pair r hpair hr => ?_
      refine .seq (h.flowItems hr false) fun items r hitems hr => ?_
      exact .some (List.forall_mem_cons.2 ⟨hpair, hitems⟩) hr
    · refine .seq (h.node hr {}) fun item r hitem hr => ?_
      refine .seq (h.flowItems hr false) fun items r hitems hr => ?_
      exact .some (List.forall_mem_cons.2 ⟨hitem, hitems⟩) hr

theorem pair_succ : Yields Node.DistinctKeys (pair? declared (fuel + 1) r) := by
  rw [pair?]
  refine .seq ?hkey fun key r (hkey : key.DistinctKeys) hr => ?_
  case hkey =>
    split
    · exact .some Node.distinctKeys_empty hr
    · exact .some Node.distinctKeys_empty hr
    · exact .some Node.distinctKeys_empty hr
    · exact h.node hr {}
  refine .seq (h.held hr .pairValue) fun value r hvalue hr => ?_
  exact .some (Node.distinctKeys_ofNodes (by simp [hkey, hvalue])) hr

theorem flowEntries_succ (first : Bool) :
    Yields (∀ x ∈ ·, x.DistinctKeys) (flowEntries? declared (fuel + 1) first r) := by
  rw [flowEntries?]
  split
  · exact .some (List.forall_mem_nil _) hr
  · refine .bind fun r' hr' => ?_
    replace hr := hr.afterComma? hr'
    split
    · exact .some (List.forall_mem_nil _) hr
    · refine .seq (h.node (hr.past _) .flowKey) fun key r hkey hr => ?_
      refine .seq (h.held hr .flowValue) fun value r hvalue hr => ?_
      refine .seq (h.flowEntries hr false) fun nodes r hnodes hr => ?_
      exact .some (forall_mem_pair hkey hvalue hnodes) hr
    · refine .seq (h.held hr .flowValue) fun value r hvalue hr => ?_
      refine .seq (h.flowEntries hr false) fun nodes r hnodes hr => ?_
      exact .some (forall_mem_pair Node.distinctKeys_empty hvalue hnodes) hr
    · refine .seq (h.node hr {}) fun key r hkey hr => ?_
      refine .seq (h.flowEntries hr false) fun nodes r hnodes hr => ?_
      exact .some (forall_mem_pair hkey Node.distinctKeys_empty hnodes) hr

end ReadsDistinct

/-- **The readers make only nodes that have each key once**, with any fuel. -/
theorem readsDistinct (declared : Option (String × String)) (fuel : Nat) :
    ReadsDistinct declared fuel := by
  induction fuel with
  | zero => exact readsDistinct_zero
  | succ fuel h =>
    exact {
      node := h.node_succ
      content := h.content_succ
      blockItems := h.blockItems_succ
      unindentedItems := h.unindentedItems_succ
      held := h.held_succ
      blockEntries := h.blockEntries_succ
      flowItems := h.flowItems_succ
      pair := h.pair_succ
      flowEntries := h.flowEntries_succ }

/-! ## Documents -/

/-- A document is read with no anchors in it yet. -/
theorem distinctKeys_of_node? {place : Place} {tokens : List Token} {y : Node} {r : Reader}
    (h : node? declared fuel place ⟨tokens, {}⟩ = some (y, r)) : y.DistinctKeys := by
  have hstart : Reader.Sound ⟨tokens, {}⟩ := List.forall_mem_nil _
  exact ((readsDistinct declared fuel).node hstart place y r h).1

theorem distinctKeys_of_root? {bare : Bool} {tokens rest : List Token} {y : Node}
    (h : root? bare tokens = some (y, rest)) : y.DistinctKeys := by
  unfold root? at h
  split at h
  · obtain ⟨⟨node, r⟩, hnode, he⟩ := Option.bind_eq_some_iff.1 h
    obtain ⟨rfl, -⟩ := Prod.mk.inj (Option.some.inj he)
    exact distinctKeys_of_node? hnode
  · obtain ⟨⟨declared, ts⟩, -, h⟩ := Option.bind_eq_some_iff.1 h
    dsimp only at h
    split at h
    · split at h
      · obtain ⟨rfl, -⟩ := Prod.mk.inj (Option.some.inj h)
        exact Node.distinctKeys_empty
      · obtain ⟨⟨node, r⟩, hnode, he⟩ := Option.bind_eq_some_iff.1 h
        obtain ⟨rfl, -⟩ := Prod.mk.inj (Option.some.inj he)
        exact distinctKeys_of_node? hnode
    · cases h

theorem distinctKeys_of_roots? {fuel : Nat} {bare : Bool} {tokens : List Token}
    {nodes : List Node} (h : roots? fuel bare tokens = some nodes) :
    ∀ y ∈ nodes, y.DistinctKeys := by
  induction fuel generalizing bare tokens nodes with
  | zero => cases h
  | succ fuel ih =>
    unfold roots? at h
    split at h
    · obtain rfl := Option.some.inj h
      exact List.forall_mem_nil _
    · obtain ⟨⟨node, rest⟩, hroot, h⟩ := Option.bind_eq_some_iff.1 h
      dsimp only at h
      split at h
      · cases h
      · obtain ⟨later, hlater, he⟩ := Option.bind_eq_some_iff.1 h
        obtain rfl := Option.some.inj he
        exact List.forall_mem_cons.2 ⟨distinctKeys_of_root? hroot, ih hlater⟩

/-- **No mapping in a document that is read has a key twice.** -/
theorem distinctKeys_of_nodes? {text : String} {nodes : List Node}
    (h : nodes? text = some nodes) : ∀ y ∈ nodes, y.DistinctKeys := by
  obtain ⟨tokens, -, h⟩ := Option.bind_eq_some_iff.1 h
  exact distinctKeys_of_roots? h

end Yaml

end MarkupTemplate
