import MarkupTemplate.Content
import MarkupTemplate.Markup.Entity

/-!
# Writing markup

A tree as markup. A childless element is written as one tag that closes itself, a fragment is
written as its children, and what stands under a text or a comment is not written.

Results:
* `print_append`: trees side by side are written one after the other.
* `print_fragment`: a fragment is written as its children.
-/

namespace MarkupTemplate.Markup

/-- An attribute, with a blank before it. -/
def printAttribute (a : String × String) : List Char :=
  ' ' :: (a.1.toList ++ '=' :: '"' :: (escapeValue a.2.toList ++ ['"']))

/-- The tag and the attributes of an element. -/
def printHead (e : Element) : List Char :=
  e.tag.toList ++ e.attributes.entries.flatMap printAttribute

/-- An element whose children are written as `inner`; `childless` says that it has none. -/
def printElement (e : Element) (childless : Bool) (inner : List Char) : List Char :=
  '<' :: (printHead e ++
    if childless then ['/', '>']
    else '>' :: (inner ++ '<' :: '/' :: (e.tag.toList ++ ['>'])))

/-- Whether a forest has no tree. -/
def isChildless : Forest Content → Bool
  | .nil => true
  | .cons _ _ _ => false

/-- Trees as markup. -/
def print : Forest Content → List Char
  | .nil => []
  | .cons a below beside =>
    (match a with
      | .element e => printElement e (isChildless below) (print below)
      | .text s => escapeText s.toList
      | .comment s => '<' :: '!' :: '-' :: '-' :: (s.toList ++ ['-', '-', '>'])
      | .fragment => print below) ++ print beside

@[simp] theorem print_append (f g : Forest Content) : print (f ++ g) = print f ++ print g := by
  induction f with
  | nil => rfl
  | cons a below beside _ ih => simp [print, ih]

theorem print_fragment (f : Forest Content) : print (Tree.ofFragment f).toForest = print f := by
  simp [Tree.ofFragment, Tree.toForest, print]

end MarkupTemplate.Markup

namespace MarkupTemplate

/-- Trees as markup. -/
def Forest.toMarkup (f : Forest Content) : String :=
  String.ofList (Markup.print f)

/-- A tree as markup. -/
def Tree.toMarkup (t : Tree Content) : String :=
  t.toForest.toMarkup

end MarkupTemplate
