import Mathlib.Data.List.Forall2
import MarkupTemplate.Proofs.Value.Order
import MarkupTemplate.Proofs.Yaml.Keys

/-!
# Nodes as values

A node is taken for a value part by part, and what is no value makes all that holds it no value. The
entries of a mapping are written into a record one by one, and there a key that is written again
would overwrite the entry it has. But a value can be written down as the node that it was taken
from, so different keys are taken for different values, and every entry is kept where it is. The
keys of a mapping may be lists and mappings themselves, so all this is shown of a node once it is
shown of its parts.

Results:
* `toValue?_eq_none_iff`: a node has no value just where a node inside it is none.
* `exists_hash_of_keys`: a mapping keeps its entries where its keys can be told apart.
* `toNode_of_toValue?`: the value of a node is written down as that node.
* `conversion_is_lossless`: so nothing of a node is lost.
* `load_eq_unsupported_iff`: a text has no values just where a node in a document is none.
-/

namespace MarkupTemplate

namespace Entries

universe u v

variable {κ : Type u} {ν : Type v} [DecidableEq κ]

/-- Where no key is written again, all that is written is kept. -/
theorem ofList_of_nodup {written : List (κ × ν)} (h : (keys written).Nodup) :
    ofList written = written := by
  rw [ofList_eq_lasting]
  induction written with
  | nil => rfl
  | cons e written ih =>
    obtain ⟨hlast, hrest⟩ : e.1 ∉ keys written ∧ (keys written).Nodup := List.nodup_cons.1 h
    rw [lasting, if_neg hlast, ih hrest]

end Entries

/-! ## Values as nodes -/

namespace Value

mutual

/-- The node that a value is written down as. -/
def toNode : Value → Yaml.Node
  | real s => .real s
  | integer n => .integer n
  | string s => .string s
  | boolean b => .boolean b
  | array items => .sequence (itemNodes items)
  | hash entries => .mapping (entryNodes entries)
  | null => .null

/-- The nodes of a list of values. -/
def itemNodes : List Value → List Yaml.Node
  | [] => []
  | v :: vs => v.toNode :: itemNodes vs

/-- The nodes of the entries of a record. -/
def entryNodes : List (Value × Value) → List (Yaml.Node × Yaml.Node)
  | [] => []
  | (k, v) :: es => (k.toNode, v.toNode) :: entryNodes es

end

theorem itemNodes_eq_map (vs : List Value) : itemNodes vs = vs.map toNode := by
  induction vs with
  | nil => rfl
  | cons v vs ih => rw [itemNodes, ih, List.map_cons]

theorem entryNodes_eq_map (es : List (Value × Value)) :
    entryNodes es = es.map (Prod.map toNode toNode) := by
  induction es with
  | nil => rfl
  | cons e es ih => rw [entryNodes, ih, List.map_cons, Prod.map]

end Value

namespace Yaml

namespace Node

/-- What is no value by itself: a reference that was left as it is, and a bad node. -/
def IsUnsupported (y : Node) : Prop :=
  y = bad ∨ ∃ anchor, y = reference anchor

/-- An entry is taken for that of the value of its key and the value of what it holds. -/
def Taken (e : Node × Node) (f : Value × Value) : Prop :=
  e.1.toValue? = some f.1 ∧ e.2.toValue? = some f.2

/-! ## Part by part -/

theorem sizeOf_lt_of_mem_parts {x y : Node} (h : x ∈ y.parts) : sizeOf x < sizeOf y := by
  cases y with
  | sequence items =>
    have := List.sizeOf_lt_of_mem (show x ∈ items from h)
    rw [sequence.sizeOf_spec]
    omega
  | mapping es =>
    have := Value.sizeOf_lt_of_mem_entries h
    rw [mapping.sizeOf_spec]
    omega
  | _ => cases h

/-- What holds of a node if it holds of its parts holds of all nodes. -/
theorem induction_parts {P : Node → Prop} (h : ∀ y : Node, (∀ x ∈ y.parts, P x) → P y)
    (y : Node) : P y :=
  h y fun x _ => induction_parts h x
termination_by sizeOf y
decreasing_by exact sizeOf_lt_of_mem_parts ‹_›

theorem itemValues?_eq_some_iff {xs : List Node} {vs : List Value} :
    itemValues? xs = some vs ↔ List.Forall₂ (fun x v => x.toValue? = some v) xs vs := by
  induction xs generalizing vs with
  | nil => simp [itemValues?, eq_comm]
  | cons x xs ih =>
    rw [List.forall₂_cons_left_iff, itemValues?]
    simp only [← ih, bind, pure, Option.bind_eq_some_iff, Option.some.injEq, exists_and_left,
      eq_comm (b := vs)]

theorem entryValues?_eq_some_iff {es : List (Node × Node)} {fs : List (Value × Value)} :
    entryValues? es = some fs ↔ List.Forall₂ Taken es fs := by
  induction es generalizing fs with
  | nil => simp [entryValues?, eq_comm]
  | cons e es ih =>
    rw [List.forall₂_cons_left_iff, entryValues?]
    simp only [← ih, Taken, bind, pure, Option.bind_eq_some_iff, Option.some.injEq,
      exists_and_left, Prod.exists, and_assoc, eq_comm (b := fs)]

theorem itemValues?_eq_none_iff {xs : List Node} :
    itemValues? xs = none ↔ ∃ x ∈ xs, x.toValue? = none := by
  induction xs with
  | nil => simp [itemValues?]
  | cons x xs ih =>
    rw [List.exists_mem_cons_iff, ← ih, itemValues?]
    cases x.toValue? <;> cases itemValues? xs <;> simp

theorem entryValues?_eq_none_iff {es : List (Node × Node)} :
    entryValues? es = none ↔ ∃ e ∈ es, e.1.toValue? = none ∨ e.2.toValue? = none := by
  induction es with
  | nil => simp [entryValues?]
  | cons e es ih =>
    rw [List.exists_mem_cons_iff, ← ih, entryValues?]
    cases e.1.toValue? <;> cases e.2.toValue? <;> cases entryValues? es <;> simp

/-- A node has no value if it is none by itself, or a part has none. -/
theorem toValue?_eq_none_iff_parts {y : Node} :
    y.toValue? = none ↔ y.IsUnsupported ∨ ∃ x ∈ y.parts, x.toValue? = none := by
  cases y with
  | sequence items =>
    rw [toValue?_sequence, Option.map_eq_none_iff, itemValues?_eq_none_iff]
    simp [IsUnsupported, parts]
  | mapping es =>
    rw [toValue?_mapping, Option.map_eq_none_iff, entryValues?_eq_none_iff]
    constructor
    · rintro ⟨e, he, h | h⟩
      · exact .inr ⟨e.1, key_mem_parts he, h⟩
      · exact .inr ⟨e.2, value_mem_parts he, h⟩
    · rintro (h | ⟨x, hx, h⟩)
      · simp [IsUnsupported] at h
      · obtain ⟨e, he, rfl | rfl⟩ := mem_parts_mapping.1 hx
        · exact ⟨e, he, .inl h⟩
        · exact ⟨e, he, .inr h⟩
  | _ => simp [toValue?, IsUnsupported, parts]

/-- **A node has no value** just where a node inside it is none. -/
theorem toValue?_eq_none_iff {y : Node} :
    y.toValue? = none ↔ ∃ x : Node, x.Within y ∧ x.IsUnsupported := by
  constructor
  · intro h
    induction y using induction_parts with
    | h y ih =>
    rcases toValue?_eq_none_iff_parts.1 h with h | ⟨z, hz, hnone⟩
    · exact ⟨y, .self, h⟩
    · obtain ⟨x, hx, hunsupported⟩ := ih z hz hnone
      exact ⟨x, .part hz hx, hunsupported⟩
  · rintro ⟨x, hx, hunsupported⟩
    induction hx with
    | self => exact toValue?_eq_none_iff_parts.2 (.inl hunsupported)
    | part hy _ ih => exact toValue?_eq_none_iff_parts.2 (.inr ⟨_, hy, ih⟩)

/-! ## There and back -/

/-- Lists that are related item by item have the same image where related items have. -/
theorem map_eq_of_forall₂ {α β γ : Type} {R : α → β → Prop} {f : α → γ} {g : β → γ}
    {xs : List α} {ys : List β} (h : List.Forall₂ R xs ys)
    (hfg : ∀ x ∈ xs, ∀ y, R x y → f x = g y) : xs.map f = ys.map g := by
  induction h with
  | nil => rfl
  | cons hR _ ih =>
    rw [List.map_cons, List.map_cons, hfg _ List.mem_cons_self _ hR,
      ih fun x hx => hfg x (List.mem_cons_of_mem _ hx)]

/-- **A mapping keeps its entries** where its keys can be told apart by their values. -/
theorem exists_hash_of_keys {es : List (Node × Node)} {v : Value} (hes : (Entries.keys es).Nodup)
    (hkeys : ∀ e ∈ es, ∀ k, e.1.toValue? = some k → e.1 = k.toNode)
    (h : (mapping es).toValue? = some v) :
    ∃ fs, v = .hash fs ∧ List.Forall₂ Taken es fs ∧ (Entries.keys fs).Nodup := by
  rw [toValue?_mapping] at h
  obtain ⟨fs, hfs, rfl⟩ := Option.map_eq_some_iff.1 h
  have htaken := entryValues?_eq_some_iff.1 hfs
  have hback : Entries.keys es = (Entries.keys fs).map Value.toNode := by
    rw [Entries.keys, Entries.keys, List.map_map]
    exact map_eq_of_forall₂ htaken fun e he f hef => hkeys e he f.1 hef.1
  have hnodup : (Entries.keys fs).Nodup := .of_map _ (hback ▸ hes)
  exact ⟨fs, congrArg Value.hash (Entries.ofList_of_nodup hnodup), htaken, hnodup⟩

/-- **The value of a node is written down as that node.** -/
theorem toNode_of_toValue? {y : Node} {v : Value} (hy : y.DistinctKeys)
    (h : y.toValue? = some v) : v.toNode = y := by
  induction y using induction_parts generalizing v with
  | h y ih =>
  have hparts : ∀ x ∈ y.parts, ∀ w, x.toValue? = some w → x = w.toNode :=
    fun x hx w hw => (ih x hx (hy.of_mem_parts hx) hw).symm
  cases y with
  | sequence items =>
    rw [toValue?_sequence] at h
    obtain ⟨vs, hvs, rfl⟩ := Option.map_eq_some_iff.1 h
    have hback := map_eq_of_forall₂ (itemValues?_eq_some_iff.1 hvs) (f := id) hparts
    rw [Value.toNode, Value.itemNodes_eq_map, ← hback, List.map_id]
  | mapping es =>
    obtain ⟨fs, rfl, htaken, -⟩ :=
      exists_hash_of_keys (hy es .self) (fun e he => hparts e.1 (key_mem_parts he)) h
    have hback : es.map id = fs.map (Prod.map Value.toNode Value.toNode) :=
      map_eq_of_forall₂ htaken fun e he f hef => Prod.ext (hparts e.1 (key_mem_parts he) f.1 hef.1)
        (hparts e.2 (value_mem_parts he) f.2 hef.2)
    rw [Value.toNode, Value.entryNodes_eq_map, ← hback, List.map_id]
  | reference _ | bad => cases h
  | _ =>
    cases h
    rfl

/-- **Nothing of a node is lost** when it is taken for a value. No mapping in a document that is
read has a key twice. A node of which this holds has no value if and only if a reference or a bad
node occurs in it, be it in a key. If it has one, then the node can be written down from its value,
and no other node has the same value; and every mapping in it, at any depth, is taken for a record
with the same entries in the same order, under keys that are all different. -/
theorem conversion_is_lossless :
    (∀ text nodes, nodes? text = some nodes → ∀ y ∈ nodes, y.DistinctKeys) ∧
      ∀ y : Node, y.DistinctKeys →
        (y.toValue? = none ↔ ∃ x : Node, x.Within y ∧ x.IsUnsupported) ∧
          ∀ v, y.toValue? = some v →
            v.toNode = y ∧
              (∀ z : Node, z.DistinctKeys → z.toValue? = some v → z = y) ∧
              ∀ es, (mapping es).Within y → ∃ fs, (mapping es).toValue? = some (.hash fs) ∧
                List.Forall₂ Taken es fs ∧ (Entries.keys fs).Nodup := by
  refine ⟨fun _ _ => distinctKeys_of_nodes?, fun y hy => ⟨toValue?_eq_none_iff, fun v hv => ?_⟩⟩
  have hback := toNode_of_toValue? hy hv
  refine ⟨hback, fun z hz hzv => (toNode_of_toValue? hz hzv).symm.trans hback, fun es hes => ?_⟩
  have hsome : (mapping es).toValue? ≠ none := by
    intro hnone
    obtain ⟨x, hx, hunsupported⟩ := toValue?_eq_none_iff.1 hnone
    have hy : y.toValue? = none := toValue?_eq_none_iff.2 ⟨x, hx.trans hes, hunsupported⟩
    rw [hy] at hv
    cases hv
  obtain ⟨w, hw⟩ := Option.ne_none_iff_exists'.1 hsome
  have hkeys : ∀ e ∈ es, ∀ k, e.1.toValue? = some k → e.1 = k.toNode := fun e he k hk =>
    (toNode_of_toValue? ((hy.of_within hes).of_mem_parts (key_mem_parts he)) hk).symm
  obtain ⟨fs, rfl, htaken, hnodup⟩ := exists_hash_of_keys (hy es hes) hkeys hw
  exact ⟨fs, hw, htaken, hnodup⟩

/-- A list and the text that it holds are different keys, and a mapping is held under one; a number
that is none is found in a key. -/
theorem conversion_is_lossless_nested :
    let es : List (Node × Node) := [(.integer 1, .null)]
    let y : Node := .mapping [(.sequence [.string "a"], .mapping es), (.string "a", .integer 2)]
    let z : Node := .mapping [(.sequence [.bad], .null)]
    nodes? "? [a]\n: 1: ~\na: 2\n" = some [y] ∧ nodes? "? [!!int x]\n" = some [z] ∧
      z.toValue? = none ∧ ∃ v, y.toValue? = some v ∧ v.toNode = y ∧
        ∃ fs, (mapping es).toValue? = some (.hash fs) ∧ List.Forall₂ Taken es fs ∧
          (Entries.keys fs).Nodup := by
  intro es y z
  have hy : nodes? "? [a]\n: 1: ~\na: 2\n" = some [y] := by decide +kernel
  have hz : nodes? "? [!!int x]\n" = some [z] := by decide +kernel
  have hbad : bad.Within z :=
    .part (key_mem_parts List.mem_cons_self) (.part List.mem_cons_self .self)
  have hes : (mapping es).Within y := .part (value_mem_parts List.mem_cons_self) .self
  obtain ⟨v, hv⟩ : ∃ v, y.toValue? = some v := ⟨_, rfl⟩
  obtain ⟨hread, hlossless⟩ := conversion_is_lossless
  have hnone := (hlossless z (hread _ _ hz z List.mem_cons_self)).1.2 ⟨bad, hbad, .inl rfl⟩
  obtain ⟨hback, -, hentries⟩ := (hlossless y (hread _ _ hy y List.mem_cons_self)).2 v hv
  exact ⟨hy, hz, hnone, v, hv, hback, hentries es hes⟩

end Node

/-! ## Texts without values -/

theorem mapM_toValue?_eq_none_iff {nodes : List Node} :
    nodes.mapM Node.toValue? = none ↔ ∃ y ∈ nodes, y.toValue? = none := by
  induction nodes with
  | nil => simp
  | cons y nodes ih =>
    rw [List.exists_mem_cons_iff, ← ih, List.mapM_cons]
    cases y.toValue? <;> cases nodes.mapM Node.toValue? <;> simp

/-- **A text has no values**, although it is well formed, just where a node in a document is
none. -/
theorem load_eq_unsupported_iff {text : String} :
    load text = .error .unsupported ↔
      ∃ nodes, nodes? text = some nodes ∧
        ∃ y ∈ nodes, ∃ x : Node, x.Within y ∧ x.IsUnsupported := by
  simp only [← Node.toValue?_eq_none_iff, ← mapM_toValue?_eq_none_iff]
  unfold load
  cases h : nodes? text with
  | none => simp
  | some nodes => cases h' : nodes.mapM Node.toValue? <;> simp [h']

end Yaml

end MarkupTemplate
