import MarkupTemplate.Document.Basic

/-!
# Changing documents

Nodes are created, copied, moved, removed and written to. An operation that fails may have done a
part of its work, so it answers with the document it leaves as well as with its outcome.

Results:
* `append_of_removed`: appending to or from a removed node changes nothing.
-/

namespace MarkupTemplate

/-- Why a node cannot be moved to a place. -/
inductive MoveError where
  /-- It would become its own child. -/
  | appendSelf
  /-- It would become a child of its descendant. -/
  | appendAncestor
  /-- It would stand before itself. -/
  | insertBeforeSelf
  /-- It would stand before its descendant. -/
  | insertBeforeDescendant
  deriving DecidableEq, Repr

/-- The wording of a move that cannot be made. -/
def MoveError.message : MoveError → String
  | appendSelf => "Can not append a node to itself"
  | appendAncestor => "Can not append a node to, or insert it after, its descendant"
  | insertBeforeSelf => "Can not insert a node before itself"
  | insertBeforeDescendant => "Can not prepend a node to, or insert it before, its descendant"

/-- Why an operation on a document fails. -/
inductive TreeError where
  /-- An address names no node. -/
  | outOfRange (e : Address.OutOfRange)
  /-- A node is no longer there. -/
  | removed (h : Handle)
  /-- A node cannot be moved to a place. -/
  | move (e : MoveError)
  deriving DecidableEq, Repr

/-- The wording of a failure, with nodes called by `name`. -/
def TreeError.message (name : Handle → String) : TreeError → String
  | outOfRange e => e.message
  | removed h => s!"node {name h} has been removed from its document"
  | move e => s!"tree operation failed: {e.message}"

namespace Document

/-! ## New nodes -/

/-- Puts a fresh copy of a tree beside the trees of the document. -/
def plant (d : Document) (t : Tree Content) : Document × Handle :=
  ({ forest := d.forest ++ t.toForest.number d.next, next := d.next + t.labels.length }, d.next)

/-- A new node without parent and children. -/
def create (d : Document) (c : Content) : Document × Handle :=
  d.plant ⟨c, .nil⟩

/-- A fresh copy of a node of `source`, of its whole subtree if `deep`. -/
def importNode (d : Document) (source : Document) (h : Handle) (deep : Bool) :
    Option (Document × Handle) := do
  let t ← source.shape? h
  return d.plant (if deep then t else { t with children := .nil })

/-- A fresh copy of a node of the same document. -/
def cloneNode (d : Document) (h : Handle) (deep : Bool) : Option (Document × Handle) :=
  d.importNode d h deep

/-! ## Moving and removing -/

/-- Takes a node away from its parent. -/
def detach (d : Document) (h : Handle) : Document :=
  match d.parent? h, d.tree? h with
  | some _, some t => { d with forest := d.forest.splice h .nil ++ t.toForest }
  | _, _ => d

/-- Removes a node and all its descendants. -/
def remove (d : Document) (h : Handle) : Document :=
  { d with forest := d.forest.splice h .nil }

/-- Removes all descendants of a node. -/
def clearChildren (d : Document) (h : Handle) : Document :=
  { d with forest := d.forest.reshape h fun _ => .nil }

/-- Takes a node away from its parent and makes it the last child of `parent`. -/
def moveUnder (d : Document) (parent child : Handle) : Document × Except TreeError Unit :=
  let detached := d.detach child
  if parent = child then (detached, .error (.move .appendSelf))
  else if parent ∈ d.descendants child then (detached, .error (.move .appendAncestor))
  else match d.tree? child with
    | none => (detached, .error (.removed child))
    | some t =>
      let pruned := d.forest.splice child .nil
      ({ d with forest := pruned.reshape parent (· ++ t.toForest) }, .ok ())

/-- Moves nodes under `parent` one by one, up to the first that cannot be moved. -/
def moveAllUnder (d : Document) (parent : Handle) :
    List Handle → Document × Except TreeError Unit
  | [] => (d, .ok ())
  | child :: rest =>
    match d.moveUnder parent child with
    | (moved, .ok ()) => moved.moveAllUnder parent rest
    | failed => failed

/-- The first of the given nodes that is not there. -/
def firstRemoved? (d : Document) (hs : List Handle) : Option Handle :=
  hs.find? fun h => !d.contains h

/-- Makes `child` the last child of `parent`. Of a fragment the children are moved instead, and the
fragment is left empty. -/
def append (d : Document) (parent child : Handle) : Document × Except TreeError Unit :=
  match d.firstRemoved? [parent, child] with
  | some h => (d, .error (.removed h))
  | none =>
    if (d.content? child).any Content.isFragment then d.moveAllUnder parent (d.children child)
    else d.moveUnder parent child

/-- Puts `new` where `old` is, and removes `old` and its descendants. -/
def replaceChild (d : Document) (old new : Handle) : Document × Except TreeError Unit :=
  match d.firstRemoved? [old, new] with
  | some h => (d, .error (.removed h))
  | none =>
    let detached := d.detach new
    if old = new then (detached, .error (.move .insertBeforeSelf))
    else if old ∈ d.descendants new then (detached, .error (.move .insertBeforeDescendant))
    else match d.tree? new with
      | none => (detached, .error (.removed new))
      | some t => ({ d with forest := (d.forest.splice new .nil).splice old t.toForest }, .ok ())

theorem append_of_removed {d : Document} {parent child h : Handle}
    (hr : d.firstRemoved? [parent, child] = some h) :
    d.append parent child = (d, .error (.removed h)) := by
  simp [append, hr]

/-! ## Writing -/

/-- Changes what a node is by `g`, which may refuse; the flag says whether it was changed. -/
def writeNode (d : Document) (h : Handle) (g : Content → Option Content) : Document × Bool :=
  match (d.content? h).bind g with
  | some c => ({ d with forest := d.forest.relabel h fun _ => c }, true)
  | none => (d, false)

/-- Sets an attribute of an element. -/
def setAttribute (d : Document) (h : Handle) (name value : String) : Document × Bool :=
  d.writeNode h (Content.setAttribute? name value)

/-- Sets what a text or a comment holds. -/
def setText (d : Document) (h : Handle) (s : String) : Document × Bool :=
  d.writeNode h (Content.setText? s)

/-! ## Addresses -/

/-- The node that an address names from a root. -/
def nodeAt (d : Document) (root : Handle) (a : Address) : Except TreeError Handle :=
  match d.tree? root with
  | none => .error (.removed root)
  | some t =>
    match t.resolve a with
    | .ok s => .ok s.label.handle
    | .error e => .error (.outOfRange e)

end Document

end MarkupTemplate
