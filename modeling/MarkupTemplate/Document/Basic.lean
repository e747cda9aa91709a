import MarkupTemplate.Address
import MarkupTemplate.Content

/-!
# Documents

A document holds trees whose nodes have handles. A handle names one node for ever: it is never
given to another, and it names nothing once its node has been removed.

Results:
* `handles_append`: the handles of trees side by side are those of each.
* `mem_labels_splice`, `mem_labels_reshape`, `handles_relabel`: which nodes there are after an
  elementary change.
* `contents_number`, `handles_number`: giving handles keeps the nodes and uses the next numbers.
-/

namespace MarkupTemplate

/-- The name of a node. -/
abbrev Handle := Nat

/-- A node of a document, apart from its children. -/
structure Node where
  /-- Its handle. -/
  handle : Handle
  /-- What it is. -/
  content : Content
  deriving DecidableEq

namespace Forest

/-! ## Finding nodes -/

/-- The handles in document order. -/
def handles (f : Forest Node) : List Handle :=
  f.labels.map Node.handle

/-- What the nodes are, without their handles. -/
def contents (f : Forest Node) : Forest Content :=
  f.map Node.content

/-- The tree under the node with handle `h`. -/
def find? (h : Handle) : Forest Node → Option (Tree Node)
  | nil => none
  | cons a below beside =>
    if a.handle = h then some ⟨a, below⟩ else (find? h below).or (find? h beside)

/-- The handles of the roots. -/
def rootHandles (f : Forest Node) : List Handle :=
  f.roots.map Node.handle

/-- The parent of the node with handle `h`. -/
def parent? (h : Handle) : Forest Node → Option Handle
  | nil => none
  | cons a below beside =>
    if h ∈ below.rootHandles then some a.handle else (parent? h below).or (parent? h beside)

/-- The places that lead to the node with handle `h`, where the forest follows `skipped` other
trees. -/
def places? (h : Handle) (skipped : Nat) : Forest Node → Option (List Nat)
  | nil => none
  | cons a below beside =>
    if a.handle = h then some [skipped]
    else ((places? h 0 below).map (skipped :: ·)).or (places? h (skipped + 1) beside)

/-! ## Changing nodes -/

/-- The trees of `new` in place of the tree under `h`. -/
def splice : Forest Node → (h : Handle) → (new : Forest Node) → Forest Node
  | nil, _, _ => nil
  | cons a below beside, h, new =>
    if a.handle = h then new ++ beside.splice h new
    else cons a (below.splice h new) (beside.splice h new)

/-- The children of `h` changed by `g`. -/
def reshape (h : Handle) (g : Forest Node → Forest Node) : Forest Node → Forest Node
  | nil => nil
  | cons a below beside =>
    if a.handle = h then cons a (g below) (reshape h g beside)
    else cons a (reshape h g below) (reshape h g beside)

/-- What `h` is changed by `g`. -/
def relabel (h : Handle) (g : Content → Content) : Forest Node → Forest Node
  | nil => nil
  | cons a below beside =>
    cons (if a.handle = h then { a with content := g a.content } else a)
      (relabel h g below) (relabel h g beside)

@[simp] theorem handles_nil : (nil : Forest Node).handles = [] := rfl

@[simp] theorem handles_cons (a : Node) (below beside : Forest Node) :
    (cons a below beside).handles = a.handle :: (below.handles ++ beside.handles) := by
  simp [handles, labels]

@[simp] theorem handles_append (f g : Forest Node) :
    (f ++ g).handles = f.handles ++ g.handles := by
  simp [handles]

/-- Only a node of `new` can be new after a splice. -/
theorem mem_labels_splice {h : Handle} {n : Node} {new f : Forest Node}
    (hn : n ∈ (f.splice h new).labels) : n ∈ new.labels ∨ n ∈ f.labels := by
  induction f with
  | nil => simp [splice, labels] at hn
  | cons a below beside ih₁ ih₂ =>
    unfold splice at hn
    split at hn
    · simp only [labels_append, labels, List.mem_append, List.mem_cons] at hn ⊢
      grind
    · simp only [labels, List.mem_append, List.mem_cons] at hn ⊢
      grind

/-- Only a node that `g` adds can be new after `g` has changed the children of a node. -/
theorem mem_labels_reshape {h : Handle} {n : Node} {g : Forest Node → Forest Node}
    (new : Forest Node) {f : Forest Node}
    (hg : ∀ below, n ∈ (g below).labels → n ∈ new.labels ∨ n ∈ below.labels)
    (hn : n ∈ (f.reshape h g).labels) : n ∈ new.labels ∨ n ∈ f.labels := by
  induction f with
  | nil => simp [reshape, labels] at hn
  | cons a below beside ih₁ ih₂ =>
    have hbelow := hg below
    unfold reshape at hn
    split at hn
    · simp only [labels, List.mem_append, List.mem_cons] at hn ⊢
      grind
    · simp only [labels, List.mem_append, List.mem_cons] at hn ⊢
      grind

@[simp] theorem handles_relabel (h : Handle) (g : Content → Content) (f : Forest Node) :
    (f.relabel h g).handles = f.handles := by
  induction f with
  | nil => rfl
  | cons a below beside ih₁ ih₂ =>
    simp only [relabel, handles_cons, ih₁, ih₂]
    split <;> rfl

/-! ## New nodes -/

/-- The forest with handles given in document order, from `start` on. -/
def number (start : Handle) : Forest Content → Forest Node
  | nil => nil
  | cons a below beside =>
    cons ⟨start, a⟩ (number (start + 1) below) (number (start + 1 + below.labels.length) beside)

@[simp] theorem contents_number (start : Handle) (f : Forest Content) :
    (f.number start).contents = f := by
  induction f generalizing start with
  | nil => rfl
  | cons a below beside ih₁ ih₂ =>
    simp only [number, contents, map, cons.injEq, true_and] at ih₁ ih₂ ⊢
    exact ⟨ih₁ _, ih₂ _⟩

theorem handles_number (start : Handle) (f : Forest Content) :
    (f.number start).handles = List.range' start f.labels.length := by
  induction f generalizing start with
  | nil => rfl
  | cons a below beside ih₁ ih₂ =>
    simp only [number, handles_cons, ih₁, ih₂, labels, List.length_cons, List.length_append]
    rw [List.range'_succ, ← List.range'_append_1]

end Forest

/-- A document: its trees, and the next handle to be given. -/
structure Document where
  /-- The trees. -/
  forest : Forest Node := .nil
  /-- The handle of the next node. -/
  next : Handle := 0
  deriving DecidableEq

namespace Document

/-- A document without nodes. -/
def empty : Document := {}

/-- The tree under a node, if the node is there. -/
def tree? (d : Document) (h : Handle) : Option (Tree Node) :=
  d.forest.find? h

/-- Whether a node is there. -/
def contains (d : Document) (h : Handle) : Bool :=
  (d.tree? h).isSome

/-- What a node is. -/
def content? (d : Document) (h : Handle) : Option Content :=
  (d.tree? h).map (·.label.content)

/-- The parent of a node. -/
def parent? (d : Document) (h : Handle) : Option Handle :=
  d.forest.parent? h

/-- The children of a node in order. -/
def children (d : Document) (h : Handle) : List Handle :=
  ((d.tree? h).map (·.children.rootHandles)).getD []

/-- The child of a node at a place. -/
def childAt? (d : Document) (h : Handle) (index : Nat) : Option Handle :=
  (d.children h)[index]?

/-- The place of a node among the children of its parent. -/
def position? (d : Document) (h : Handle) : Option Nat := do
  (d.children (← d.parent? h)).idxOf? h

/-- A node and its descendants in document order. -/
def descendants (d : Document) (h : Handle) : List Handle :=
  ((d.tree? h).map fun t => t.labels.map Node.handle).getD []

/-- The tree under a node without its handles. -/
def shape? (d : Document) (h : Handle) : Option (Tree Content) :=
  (d.tree? h).map (·.map Node.content)

/-- The texts of all text nodes under a node in document order. -/
def textContent (d : Document) (h : Handle) : String :=
  ((d.shape? h).map Tree.textContent).getD ""

/-- The text that a text or a comment holds. -/
def text? (d : Document) (h : Handle) : Option String := do
  (← d.content? h).text?

/-- The value of an element's attribute. -/
def attribute? (d : Document) (h : Handle) (name : String) : Option String := do
  (← d.content? h).attribute? name

/-- The address of a node from a root: empty for the root itself, and none for a node that is not
under the root. -/
def addressOf? (d : Document) (root h : Handle) : Option Address :=
  if h = root then some .root
  else do return ⟨← (← d.tree? root).children.places? h 0⟩

end Document

end MarkupTemplate
