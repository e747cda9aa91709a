import MarkupTemplate.Markup.Parser
import MarkupTemplate.Markup.Printer
import MarkupTemplate.Template.Compile

/-!
# Instances of templates

An instance is a copy of a template's skeleton in a document, together with an updater that is
bound to the nodes of that copy. Each update writes all of its data again.
-/

namespace MarkupTemplate

/-- Why a template has no instance. -/
inductive InstantiateError where
  /-- The skeleton was taken away. -/
  | missingSkeleton
  /-- A descriptor does not fit the skeleton. -/
  | unbound (e : TreeError)
  deriving DecidableEq, Repr

/-- The wording of why a template has no instance, with nodes called by `name`. -/
def InstantiateError.message (name : Handle → String) : InstantiateError → String
  | missingSkeleton => "template skeleton root is missing"
  | unbound e => "skeleton clone does not match its descriptors: " ++ e.message name

/-- A copy of a template's skeleton in a document. -/
structure Instance where
  /-- The root of the copy. -/
  root : Handle
  /-- The updater that is bound to the copy. -/
  updater : Updater

namespace Document

/-- Fixes descriptors to nodes under a root, up to the first that names none. -/
def bindAll (d : Document) (root : Handle) (ss : List Descriptor) :
    Except TreeError (List Binding) :=
  ss.mapM (d.bind root)

/-- The top-level nodes of an instance: those of a fragment are its children, and a root that is no
longer there has none. -/
def instanceNodes (d : Document) (i : Instance) : List Handle :=
  match d.content? i.root with
  | some .fragment => d.children i.root
  | some _ => [i.root]
  | none => []

/-- Nodes one after the other as markup. -/
def markupOf (d : Document) (hs : List Handle) : String :=
  String.join (hs.map fun h => ((d.shape? h).map Tree.toMarkup).getD "")

/-- The markup of an instance. -/
def instanceMarkup (d : Document) (i : Instance) : String :=
  d.markupOf (d.instanceNodes i)

end Document

namespace Template

/-- The template of the given markup. -/
def ofMarkup (text : String) : Except Markup.Failure Template :=
  (Markup.parse text).map fun f => ofTree (.ofFragment f)

/-- Copies the skeleton into a document and binds every descriptor to the copy. Data that is given
and not absent is written once. -/
def instantiate (t : Template) (d : Document) (data : Option Value) :
    Document × Except InstantiateError Instance :=
  match t.skeleton with
  | none => (d, .error .missingSkeleton)
  | some skeleton =>
    let (planted, root) := d.plant skeleton
    match planted.bindAll root t.descriptors with
    | .error e => (planted, .error (.unbound e))
    | .ok bindings =>
      let updater := Updater.collection (bindings.map .bound)
      let filled := match data with
        | some v => if v.isNull then planted else planted.update updater v
        | none => planted
      (filled, .ok { root, updater })

end Template

end MarkupTemplate
