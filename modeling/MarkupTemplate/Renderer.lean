import MarkupTemplate.CallSite.Cache

/-!
# Rendering call sites into containers

A renderer remembers for each container what was rendered into it. The first rendering replaces the
children of the container by a new instance; later ones write their data to that instance.

Results:
* `render_missing`: a container that is not there is left alone.
-/

namespace MarkupTemplate

/-- A template with the data for one rendering. -/
structure TemplateResult where
  /-- The template. -/
  template : Template
  /-- The data. -/
  values : Value

/-- The templates of call sites, and the updater of each container that was rendered into. -/
structure Renderer where
  /-- The templates. -/
  cache : TemplateCache := {}
  /-- The updaters by container. -/
  rendered : List (Handle × Updater) := []

/-- Why a call site and its data give no result. -/
inductive HtmlError where
  /-- The number of values does not fit the number of fragments. -/
  | arity (site fragments values : Nat)
  /-- The call site has no template. -/
  | compile (e : SiteError)
  deriving DecidableEq, Repr

/-- The wording of why a call site and its data give no result. -/
def HtmlError.message : HtmlError → String
  | arity site fragments values =>
    s!"call site {site} has {fragments} fragments but {values} values were given"
  | compile e => e.message

/-- Why a result cannot be rendered. -/
inductive PlacementError where
  /-- The container is not there. -/
  | missingContainer (container : Handle)
  /-- The template has no instance. -/
  | instantiate (e : InstantiateError)
  /-- The instance cannot be put into the container. -/
  | append (e : TreeError)
  deriving DecidableEq, Repr

/-- The wording of why a result cannot be rendered, with nodes called by `name`. -/
def PlacementError.message (name : Handle → String) : PlacementError → String
  | missingContainer h => s!"container {name h} is not in the document"
  | instantiate e => e.message name
  | append e => e.message name

namespace Renderer

/-- The result of a call site for a value in each of its gaps. -/
def html (r : Renderer) (site : CallSite) (values : List Value) :
    Renderer × Except HtmlError TemplateResult :=
  if site.fragments.length ≠ values.length + 1 then
    (r, .error (.arity site.id site.fragments.length values.length))
  else
    let (cache, outcome) := r.cache.getOrCompile site
    ({ r with cache },
      match outcome with
      | .ok t => .ok { template := t.template, values := .array values }
      | .error e => .error (.compile e))

/-- The updater of a container. -/
def updater? (r : Renderer) (container : Handle) : Option Updater :=
  Entries.lookup? r.rendered container

/-- Whether something was rendered into a container. -/
def isRendered (r : Renderer) (container : Handle) : Bool :=
  (r.updater? container).isSome

/-- Puts a new instance into a container in place of its children. -/
def place (r : Renderer) (d : Document) (result : TemplateResult) (container : Handle) :
    Renderer × Document × Except PlacementError Unit :=
  match result.template.instantiate (d.clearChildren container) (some result.values) with
  | (d, .error e) => (r, d, .error (.instantiate e))
  | (d, .ok i) =>
    match d.append container i.root with
    | (d, .error e) => (r, d, .error (.append e))
    | (d, .ok ()) =>
      let emptied := (d.content? i.root).any Content.isFragment
      ({ r with rendered := Entries.insert r.rendered container i.updater },
        if emptied then d.remove i.root else d, .ok ())

/-- Renders a result into a container. -/
def render (r : Renderer) (d : Document) (result : TemplateResult) (container : Handle) :
    Renderer × Document × Except PlacementError Unit :=
  if !d.contains container then (r, d, .error (.missingContainer container))
  else match r.updater? container with
    | some u => (r, d.update u result.values, .ok ())
    | none => r.place d result container

/-- Removes a container, and says whether something had been rendered into it. -/
def discard (r : Renderer) (d : Document) (container : Handle) : Renderer × Document × Bool :=
  ({ r with rendered := Entries.erase r.rendered container }, d.remove container,
    r.isRendered container)

/-- Forgets the containers that are not in the document, and says how many there were. -/
def retainLive (r : Renderer) (d : Document) : Renderer × Nat :=
  let live := r.rendered.filter fun e => d.contains e.1
  ({ r with rendered := live }, r.rendered.length - live.length)

theorem render_missing {d : Document} {container : Handle} (h : d.contains container = false)
    (r : Renderer) (result : TemplateResult) :
    r.render d result container = (r, d, .error (.missingContainer container)) := by
  simp [render, h]

end Renderer

end MarkupTemplate
