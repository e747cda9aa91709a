import MarkupTemplate.Forest

/-!
# Addresses

An address names a node by the places that lead to it from a root: the place of a child among the
root's children, the place of one of that child's children, and so on. It names the corresponding
node of every tree of the same shape.
-/

namespace MarkupTemplate

/-- The places that lead from a root to a node. -/
structure Address where
  /-- The places, the root's child first. -/
  places : List Nat
  deriving DecidableEq, Repr

namespace Address

/-- The address of the root. -/
def root : Address := ⟨[]⟩

/-- The address of the same node when its root has become child `place` of a new root. -/
def nested (a : Address) (place : Nat) : Address :=
  ⟨place :: a.places⟩

/-- The address of the same node when `offset` trees were put to the left of the root's children;
the root stays where it is. -/
def shifted (a : Address) (offset : Nat) : Address :=
  match a.places with
  | [] => a
  | place :: places => ⟨(place + offset) :: places⟩

/-- The address as text. -/
def text (a : Address) : String :=
  "[" ++ ", ".intercalate (a.places.map fun n => toString n) ++ "]"

/-- Why an address names no node: the node at `depth` has `childCount` children, and `index` is
not the place of one of them. -/
structure OutOfRange where
  /-- The address. -/
  address : Address
  /-- How many of its places name a node. -/
  depth : Nat
  /-- The next place. -/
  index : Nat
  /-- How many children there are to choose from. -/
  childCount : Nat
  deriving DecidableEq, Repr

/-- The wording of an address that names no node. -/
def OutOfRange.message (e : OutOfRange) : String :=
  s!"address {e.address.text} out of range: index {e.index} at depth {e.depth} " ++
    s!"but node has {e.childCount} children"

end Address

variable {α : Type u}

namespace Tree

/-- The node that the places lead to, as the tree under it; or the depth at which they lead
nowhere, the place there, and how many children there are. -/
def follow (t : Tree α) : (places : List Nat) → (depth : Nat) → Except (Nat × Nat × Nat) (Tree α)
  | [], _ => .ok t
  | place :: places, depth =>
    match t.children.tree? place with
    | some child => child.follow places (depth + 1)
    | none => .error (depth, place, t.children.width)

/-- The tree under the node that an address names. -/
def resolve (t : Tree α) (a : Address) : Except Address.OutOfRange (Tree α) :=
  match t.follow a.places 0 with
  | .ok s => .ok s
  | .error (depth, index, childCount) => .error { address := a, depth, index, childCount }

end Tree

end MarkupTemplate
