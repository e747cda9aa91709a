import MarkupTemplate.Attributes
import MarkupTemplate.Forest

/-!
# Markup trees

What a node of a markup tree is: an element, a text, a comment, or a fragment, which stands for
its children. Any node may have children.
-/

namespace MarkupTemplate

/-- What an element is, apart from its children. -/
structure Element where
  /-- Its tag. -/
  tag : String
  /-- The namespace of the tag, if it has one. -/
  ns : Option String := none
  /-- Its attributes. -/
  attributes : Attributes := .empty
  deriving DecidableEq

/-- What a node is, apart from its children. -/
inductive Content where
  /-- An element. -/
  | element (e : Element)
  /-- A text. -/
  | text (s : String)
  /-- A comment. -/
  | comment (s : String)
  /-- A fragment, which stands for its children. -/
  | fragment
  deriving DecidableEq

namespace Content

/-- Whether the node is a fragment. -/
def isFragment : Content → Bool
  | fragment => true
  | _ => false

/-- The text that a text or a comment holds. -/
def text? : Content → Option String
  | text s | comment s => some s
  | _ => none

/-- The value of an element's attribute. -/
def attribute? (name : String) : Content → Option String
  | element e => e.attributes.get? name
  | _ => none

/-- The node with another text, if it is a text or a comment. -/
def setText? (s : String) : Content → Option Content
  | text _ => some (text s)
  | comment _ => some (comment s)
  | _ => none

/-- The node with an attribute set, if it is an element. -/
def setAttribute? (name value : String) : Content → Option Content
  | element e => some (element { e with attributes := e.attributes.set name value })
  | _ => none

/-- What a text node adds to the text of the trees it is in. -/
def ownText : Content → String
  | text s => s
  | _ => ""

end Content

namespace Forest

/-- The texts of all text nodes in document order. -/
def textContent (f : Forest Content) : String :=
  String.join (f.labels.map Content.ownText)

end Forest

/-- The texts of all text nodes in document order. -/
def Tree.textContent (t : Tree Content) : String :=
  t.toForest.textContent

/-- The tree of a fragment with the given children. -/
def Tree.ofFragment (f : Forest Content) : Tree Content :=
  ⟨.fragment, f⟩

end MarkupTemplate
