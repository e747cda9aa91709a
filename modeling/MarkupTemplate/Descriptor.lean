import MarkupTemplate.Document.Edit
import MarkupTemplate.Placeholder

/-!
# Descriptors

A descriptor says where data goes in a tree: into a text, or into an attribute of an element, at an
address. Bound to a root it is fixed to the node there, and stays with that node wherever it goes.

Results:
* `write?_isSome`: whether a node takes what is written depends on its kind alone.
-/

namespace MarkupTemplate

/-- What data is written to, and how. -/
inductive Target where
  /-- The text, from one expression. -/
  | textContent (expression : String)
  /-- An attribute, from static text and expressions. -/
  | attributeValue (name : String) (tokens : List Token)
  deriving DecidableEq, Repr

namespace Target

/-- What is written for the data `v`. -/
def value (v : Value) : Target → String
  | textContent expression => (Token.expression expression).fill v
  | attributeValue _ tokens => fillTokens v tokens

/-- The node with what is written for the data `v`; a node of another kind refuses it. -/
def write? (v : Value) (t : Target) : Content → Option Content :=
  match t with
  | textContent _ => Content.setText? (t.value v)
  | attributeValue name _ => Content.setAttribute? name (t.value v)

theorem write?_isSome (v w : Value) (t : Target) (c : Content) :
    (t.write? v c).isSome = (t.write? w c).isSome := by
  cases t <;> cases c <;> rfl

end Target

/-- Where data goes in a tree. -/
structure Descriptor where
  /-- The address of the node. -/
  address : Address
  /-- What is written there. -/
  target : Target
  deriving DecidableEq, Repr

namespace Descriptor

/-- The descriptor when the root has become child `place` of a new root. -/
def nested (d : Descriptor) (place : Nat) : Descriptor :=
  { d with address := d.address.nested place }

/-- The descriptor as text. -/
def text (d : Descriptor) : String :=
  d.address.text ++
    match d.target with
    | .textContent expression => " text " ++ (Token.expression expression).written
    | .attributeValue name tokens =>
      " attribute " ++ name ++ "=\"" ++ String.join (tokens.map Token.written) ++ "\""

end Descriptor

/-! ## Binding -/

/-- A target fixed to a node. -/
structure Binding where
  /-- The node. -/
  node : Handle
  /-- What is written to it. -/
  target : Target
  deriving DecidableEq, Repr

/-- The document with the binding's data `v` written; a node that is gone, or of another kind, is
left alone. -/
def Binding.apply (d : Document) (v : Value) (b : Binding) : Document :=
  (d.writeNode b.node (b.target.write? v)).1

/-- Fixes a descriptor to the node that its address names from a root. -/
def Document.bind (d : Document) (root : Handle) (s : Descriptor) : Except TreeError Binding :=
  (d.nodeAt root s.address).map fun h => ⟨h, s.target⟩

/-- A binding, or updaters to be applied one after the other. -/
inductive Updater where
  /-- One binding. -/
  | bound (b : Binding)
  /-- Several updaters. -/
  | collection (members : List Updater)

mutual

/-- The bindings of an updater in order. -/
def Updater.bindings : Updater → List Binding
  | .bound b => [b]
  | .collection members => Updater.allBindings members

/-- The bindings of several updaters in order. -/
def Updater.allBindings : List Updater → List Binding
  | [] => []
  | u :: us => u.bindings ++ Updater.allBindings us

end

/-- How many updaters a collection has; a single binding is one. -/
def Updater.size : Updater → Nat
  | .bound _ => 1
  | .collection members => members.length

/-- The document with the data `v` written to every node that the updater is bound to. -/
def Document.update (d : Document) (u : Updater) (v : Value) : Document :=
  u.bindings.foldl (Binding.apply · v ·) d

end MarkupTemplate
