/-!
# Ordered forests

An ordered forest is a list of trees whose nodes carry labels. It is written with a first child
and a next sibling, so that one recursion runs over the whole of it: `cons a below beside` is a
tree with root `a` and children `below`, followed by the trees `beside`.

Results:
* `append_assoc`, `append_nil`: forests side by side form a monoid.
* `labels_append`, `labels_map`: the labels in document order (a node before its children, its
  children before its right neighbours) follow the operations.
* `map_map`, `map_congr`, `map_eq_self`: labels that are changed twice, alike, or not at all.
* `width_append`, `tree?_append_width`: trees are counted and found by their place from the left.
-/

namespace MarkupTemplate

universe u v w

/-- An ordered list of trees with labels of type `α`. -/
inductive Forest (α : Type u) where
  /-- No tree. -/
  | nil
  /-- A tree with root `label` and children `below`, followed by the trees `beside`. -/
  | cons (label : α) (below beside : Forest α)
  deriving DecidableEq, Repr, Inhabited

/-- A tree: its root's label and the forest of its children. -/
structure Tree (α : Type u) where
  /-- What the root carries. -/
  label : α
  /-- The trees under the root, in order. -/
  children : Forest α
  deriving DecidableEq, Repr

variable {α : Type u} {β : Type v}

/-- The forest of one tree. -/
def Tree.toForest (t : Tree α) : Forest α :=
  .cons t.label t.children .nil


namespace Forest

/-! ## Side by side -/

/-- The trees of `f`, then those of `g`. -/
protected def append : Forest α → Forest α → Forest α
  | nil, g => g
  | cons a below beside, g => cons a below (beside.append g)

instance : Append (Forest α) := ⟨Forest.append⟩

@[simp] theorem nil_append (g : Forest α) : nil ++ g = g := rfl

@[simp] theorem cons_append (a : α) (below beside g : Forest α) :
    cons a below beside ++ g = cons a below (beside ++ g) := rfl

@[simp] theorem append_nil (f : Forest α) : f ++ nil = f := by
  induction f with
  | nil => rfl
  | cons a below beside _ ih => simp [ih]

theorem append_assoc (f g h : Forest α) : f ++ g ++ h = f ++ (g ++ h) := by
  induction f with
  | nil => rfl
  | cons a below beside _ ih => simp [ih]

/-! ## The trees of a forest -/

/-- The trees, from left to right. -/
def trees : Forest α → List (Tree α)
  | nil => []
  | cons a below beside => ⟨a, below⟩ :: beside.trees

/-- The forest of a list of trees. -/
def ofTrees (ts : List (Tree α)) : Forest α :=
  ts.foldr (fun t f => cons t.label t.children f) nil

/-- The labels of the roots, from left to right. -/
def roots (f : Forest α) : List α :=
  f.trees.map Tree.label

/-- The number of trees. -/
def width : Forest α → Nat
  | nil => 0
  | cons _ _ beside => beside.width + 1

/-- The tree with `i` trees to its left. -/
def tree? : Forest α → Nat → Option (Tree α)
  | nil, _ => none
  | cons a below _, 0 => some ⟨a, below⟩
  | cons _ _ beside, i + 1 => beside.tree? i

@[simp] theorem trees_append (f g : Forest α) : (f ++ g).trees = f.trees ++ g.trees := by
  induction f with
  | nil => rfl
  | cons a below beside _ ih => simp [trees, ih]

@[simp] theorem ofTrees_trees (f : Forest α) : ofTrees f.trees = f := by
  induction f with
  | nil => rfl
  | cons a below beside _ ih =>
    show cons a below (ofTrees beside.trees) = _
    rw [ih]

@[simp] theorem trees_ofTrees (ts : List (Tree α)) : (ofTrees ts).trees = ts := by
  induction ts with
  | nil => rfl
  | cons t ts ih =>
    show ⟨t.label, t.children⟩ :: (ofTrees ts).trees = _
    rw [ih]

@[simp] theorem length_trees (f : Forest α) : f.trees.length = f.width := by
  induction f with
  | nil => rfl
  | cons a below beside _ ih => simp [trees, width, ih]

@[simp] theorem width_append (f g : Forest α) : (f ++ g).width = f.width + g.width := by
  rw [← length_trees, ← length_trees, ← length_trees, trees_append, List.length_append]

theorem tree?_eq_getElem? (f : Forest α) (i : Nat) : f.tree? i = f.trees[i]? := by
  induction f generalizing i with
  | nil => simp [tree?, trees]
  | cons a below beside _ ih => cases i <;> simp [tree?, trees, ih]

/-- A place beyond the trees of `f` is one among those after them. -/
@[simp] theorem tree?_append_width (f g : Forest α) (i : Nat) :
    (f ++ g).tree? (f.width + i) = g.tree? i := by
  rw [tree?_eq_getElem?, tree?_eq_getElem?, trees_append,
    List.getElem?_append_right (by simp), length_trees, Nat.add_sub_cancel_left]

/-! ## Labels -/

/-- Every label in document order: a node, its descendants, the trees to its right. -/
def labels : Forest α → List α
  | nil => []
  | cons a below beside => a :: (below.labels ++ beside.labels)

/-- The same shape with every label changed by `h`. -/
def map (h : α → β) : Forest α → Forest β
  | nil => nil
  | cons a below beside => cons (h a) (below.map h) (beside.map h)

@[simp] theorem labels_append (f g : Forest α) : (f ++ g).labels = f.labels ++ g.labels := by
  induction f with
  | nil => rfl
  | cons a below beside _ ih => simp [labels, ih]

@[simp] theorem labels_map (h : α → β) (f : Forest α) : (f.map h).labels = f.labels.map h := by
  induction f with
  | nil => rfl
  | cons a below beside ih₁ ih₂ => simp [labels, map, ih₁, ih₂]

theorem map_map {γ : Type w} (g : β → γ) (h : α → β) (f : Forest α) :
    (f.map h).map g = f.map (g ∘ h) := by
  induction f with
  | nil => rfl
  | cons a below beside ih₁ ih₂ => rw [map, map, map, ih₁, ih₂, Function.comp_apply]

theorem map_congr {g h : α → β} {f : Forest α} (hgh : ∀ a ∈ f.labels, g a = h a) :
    f.map g = f.map h := by
  induction f with
  | nil => rfl
  | cons a below beside ih₁ ih₂ =>
    obtain ⟨ha, hrest⟩ := List.forall_mem_cons.1 hgh
    obtain ⟨hbelow, hbeside⟩ := List.forall_mem_append.1 hrest
    rw [map, map, ha, ih₁ hbelow, ih₂ hbeside]

theorem map_eq_self {g : α → α} {f : Forest α} (h : ∀ a ∈ f.labels, g a = a) : f.map g = f := by
  induction f with
  | nil => rfl
  | cons a below beside ih₁ ih₂ =>
    obtain ⟨ha, hrest⟩ := List.forall_mem_cons.1 h
    obtain ⟨hbelow, hbeside⟩ := List.forall_mem_append.1 hrest
    rw [map, ha, ih₁ hbelow, ih₂ hbeside]

@[simp] theorem map_append (h : α → β) (f g : Forest α) :
    (f ++ g).map h = f.map h ++ g.map h := by
  induction f with
  | nil => rfl
  | cons a below beside _ ih => simp [map, ih]

end Forest

/-- The labels of a tree in document order, its root first. -/
def Tree.labels (t : Tree α) : List α :=
  t.label :: t.children.labels

/-- The same tree with every label changed by `h`. -/
def Tree.map (h : α → β) (t : Tree α) : Tree β :=
  ⟨h t.label, t.children.map h⟩

end MarkupTemplate
