import MarkupTemplate.Template.Instance
import MarkupTemplate.Yaml.Node.Reader

/-!
# Rendering data with a template

One instance of a template is fed one value after the other, and its markup is taken after each.
-/

namespace MarkupTemplate

/-- Why a template cannot be rendered. -/
inductive RenderError where
  /-- The template is not well-formed markup. -/
  | template (e : Markup.Failure)
  /-- The data text has no values. -/
  | data (e : Yaml.LoadError)
  /-- The template has no instance. -/
  | instantiate (e : InstantiateError)
  deriving DecidableEq, Repr

namespace RenderError

/-- What failed, as the outermost context of the message. -/
def context : RenderError → String
  | template _ => "failed to parse template"
  | data _ => "failed to parse data"
  | instantiate e => e.message toString

/-- The wording of why a template cannot be rendered. -/
def message : RenderError → String
  | template e => "failed to parse template: " ++ e.message
  | data e => "failed to parse data: " ++ e.message
  | instantiate e => e.message toString

end RenderError

/-- The markup of an instance after each further value. -/
def updateEach (i : Instance) : Document → List Value → List String
  | _, [] => []
  | d, v :: rest =>
    let updated := d.update i.updater v
    updated.instanceMarkup i :: updateEach i updated rest

/-- The markup of a template's instance in an empty document after each of the values; without a
value it is not filled. -/
def Template.renderings (t : Template) (values : List Value) :
    Except InstantiateError (List String) :=
  match t.instantiate .empty values.head? with
  | (_, .error e) => .error e
  | (d, .ok i) => .ok (d.instanceMarkup i :: updateEach i d values.tail)

/-- The renderings of a template given as markup, one for each value and at least one. -/
def render (template : String) (values : List Value) : Except RenderError (List String) :=
  match Template.ofMarkup template with
  | .error e => .error (.template e)
  | .ok t => (t.renderings values).mapError .instantiate

/-- The renderings of a template for the documents of a data text, each on a line of its own. -/
def renderText (template data : String) : Except RenderError String :=
  match Yaml.load data with
  | .error e => .error (.data e)
  | .ok values => (render template values).map fun rs => String.join (rs.map (· ++ "\n"))

end MarkupTemplate
