import MarkupTemplate.Entries
import MarkupTemplate.Value.Basic

/-!
# Nodes of a data document

What a document of the data language holds before it is taken for a value: beside the values there
are scalars that contradict their tag, and references to nodes that are not complete.

Results:
* `same_iff`: nodes are compared by all that they hold.
* `toValue?_sequence`, `toValue?_mapping`: a collection is taken for a value part by part.
-/

namespace MarkupTemplate.Yaml

/-- A node. -/
inductive Node where
  /-- A number kept as its text. -/
  | real (text : String)
  /-- A 64-bit integer. -/
  | integer (number : Int64)
  /-- A text. -/
  | string (text : String)
  /-- A truth value. -/
  | boolean (flag : Bool)
  /-- A list. -/
  | sequence (items : List Node)
  /-- Keys and what they hold, in order. -/
  | mapping (entries : List (Node × Node))
  /-- The absent datum. -/
  | null
  /-- A reference that was left as it is. -/
  | reference (anchor : Nat)
  /-- A scalar that contradicts its tag, or a reference to a node from inside it. -/
  | bad
  deriving Inhabited, Repr

namespace Node

/-! ## Equality -/

mutual

/-- Whether two nodes hold the same. -/
def same : Node → Node → Bool
  | real a, real b => a = b
  | integer a, integer b => a = b
  | string a, string b => a = b
  | boolean a, boolean b => a = b
  | sequence xs, sequence ys => sameItems xs ys
  | mapping es, mapping fs => sameEntries es fs
  | null, null => true
  | reference a, reference b => a = b
  | bad, bad => true
  | _, _ => false

/-- Whether two lists hold the same. -/
def sameItems : List Node → List Node → Bool
  | [], [] => true
  | x :: xs, y :: ys => x.same y && sameItems xs ys
  | _, _ => false

/-- Whether two mappings hold the same in the same order. -/
def sameEntries : List (Node × Node) → List (Node × Node) → Bool
  | [], [] => true
  | (k, x) :: es, (l, y) :: fs => k.same l && x.same y && sameEntries es fs
  | _, _ => false

end

mutual

theorem same_iff : ∀ {a b : Node}, a.same b ↔ a = b
  | sequence xs, b => by
    cases b with
    | sequence ys => simp [same, sameItems_iff]
    | _ => simp [same]
  | mapping es, b => by
    cases b with
    | mapping fs => simp [same, sameEntries_iff]
    | _ => simp [same]
  | real _, b | integer _, b | string _, b | boolean _, b | null, b | reference _, b | bad, b => by
    cases b <;> simp [same]

theorem sameItems_iff : ∀ {xs ys : List Node}, sameItems xs ys ↔ xs = ys
  | [], [] => by simp [sameItems]
  | [], _ :: _ => by simp [sameItems]
  | _ :: _, [] => by simp [sameItems]
  | x :: xs, y :: ys => by
    have h₁ := @same_iff x y
    have h₂ := @sameItems_iff xs ys
    simp [sameItems, h₁, h₂]

theorem sameEntries_iff : ∀ {es fs : List (Node × Node)}, sameEntries es fs ↔ es = fs
  | [], [] => by simp [sameEntries]
  | [], _ :: _ => by simp [sameEntries]
  | _ :: _, [] => by simp [sameEntries]
  | (k, x) :: es, (l, y) :: fs => by
    have h₁ := @same_iff k l
    have h₂ := @same_iff x y
    have h₃ := @sameEntries_iff es fs
    simp [sameEntries, h₁, h₂, h₃]

end

instance : DecidableEq Node := fun _ _ => decidable_of_iff _ same_iff

/-! ## Mappings -/

/-- The entries of a mapping from its nodes in order, keys and what they hold in turn. A bad node
is no key: the next node takes its place. -/
def pairs : List Node → List (Node × Node)
  | [] => []
  | k :: rest =>
    if k = bad then pairs rest
    else match rest with
      | [] => []
      | x :: rest => (k, x) :: pairs rest

/-- The mapping with the given nodes; a key that is written again moves to the end. -/
def ofNodes (nodes : List Node) : Node :=
  .mapping (Entries.ofList (pairs nodes))

/-! ## Values -/

mutual

/-- The value of a node, if it holds no bad node and no reference. -/
def toValue? : Node → Option Value
  | real s => some (.real s)
  | integer n => some (.integer n)
  | string s => some (.string s)
  | boolean b => some (.boolean b)
  | sequence items => (itemValues? items).map .array
  | mapping entries => (entryValues? entries).map fun es => .ofEntries es
  | null => some .null
  | reference _ | bad => none

/-- The values of a list of nodes. -/
def itemValues? : List Node → Option (List Value)
  | [] => some []
  | x :: xs => do return (← x.toValue?) :: (← itemValues? xs)

/-- The keys and values of the entries of a mapping. -/
def entryValues? : List (Node × Node) → Option (List (Value × Value))
  | [] => some []
  | (k, x) :: es => do return (← k.toValue?, ← x.toValue?) :: (← entryValues? es)

end

theorem toValue?_sequence (items : List Node) :
    (sequence items).toValue? = (itemValues? items).map .array := by
  rw [toValue?]

theorem toValue?_mapping (entries : List (Node × Node)) :
    (mapping entries).toValue? = (entryValues? entries).map .ofEntries := by
  rw [toValue?]

end Node

end MarkupTemplate.Yaml
