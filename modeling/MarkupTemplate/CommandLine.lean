import MarkupTemplate.Render

/-!
# The command line

What the arguments ask for, and what comes of it. Reading files is left to the caller, so a run is
a function of what reading a file answers.
-/

namespace MarkupTemplate.CommandLine

/-! ## Arguments -/

/-- What is asked for. -/
inductive Command where
  /-- The version of the program. -/
  | version
  /-- A template rendered with the documents of data files; every rendering if `all`, else the
  last. -/
  | render (template : String) (data : List String) (all : Bool)
  /-- The skeleton and the descriptors of a template. -/
  | inspect (template : String)
  deriving DecidableEq, Repr

/-- What the arguments of `render` have said so far. -/
structure RenderArguments where
  /-- The template. -/
  template : Option String := none
  /-- The data files, last one first. -/
  data : List String := []
  /-- Whether every rendering is wanted. -/
  all : Bool := false

namespace RenderArguments

/-- One more file to be used as the template; there is room for one, and its name is not empty. -/
def addTemplate? (a : RenderArguments) (name : String) : Option RenderArguments :=
  if a.template.isSome || name = "" then none else some { a with template := some name }

/-- One more data file; its name is not empty. -/
def addData? (a : RenderArguments) (name : String) : Option RenderArguments :=
  if name = "" then none else some { a with data := name :: a.data }

end RenderArguments

/-- Whether an argument is an option; a single dash is a file name. -/
def isOption (argument : String) : Bool :=
  match argument.toList with
  | '-' :: _ :: _ => true
  | _ => false

/-- The value joined to an option, without the equals sign that may stand before it. -/
def joinedValue : List Char → String
  | '=' :: value => String.ofList value
  | value => String.ofList value

/-- Reads the arguments of `render`. After `--` every argument is a file name. -/
def renderArguments? : RenderArguments → List String → Option RenderArguments
  | a, [] => some a
  | a, "--" :: names => names.foldlM RenderArguments.addTemplate? a
  | a, "--all" :: rest =>
    if a.all then none else renderArguments? { a with all := true } rest
  | a, argument :: rest =>
    if argument = "-d" ∨ argument = "--data" then
      match rest with
      | name :: rest =>
        if isOption name then none else do renderArguments? (← a.addData? name) rest
      | [] => none
    else if !isOption argument then do renderArguments? (← a.addTemplate? argument) rest
    else match argument.toList with
      | '-' :: '-' :: 'd' :: 'a' :: 't' :: 'a' :: '=' :: value => do
        renderArguments? (← a.addData? (String.ofList value)) rest
      | '-' :: 'd' :: value => do renderArguments? (← a.addData? (joinedValue value)) rest
      | _ => none

/-- The file names among arguments that are to be no options. -/
def names? : List String → Option (List String)
  | [] => some []
  | "--" :: names => some names
  | argument :: rest => if isOption argument then none else (names? rest).map (argument :: ·)

/-- The command that the arguments ask for, if they make sense. What follows the short option for
the version, in the same argument or after it, is not looked at. -/
def parse? : List String → Option Command
  | "--version" :: _ => some .version
  | "render" :: rest => do
    let a ← renderArguments? {} rest
    return .render (← a.template) a.data.reverse a.all
  | "inspect" :: rest => do
    match ← names? rest with
    | [name] => if name = "" then none else return .inspect name
    | _ => none
  | argument :: _ =>
    match argument.toList with
    | '-' :: 'V' :: _ => some .version
    | _ => none
  | [] => none

/-! ## Running -/

/-- What a run leaves. -/
structure Outcome where
  /-- The exit code. -/
  exit : Nat
  /-- What was printed. -/
  stdout : String := ""
  /-- What went wrong. -/
  message : Option String := none
  deriving DecidableEq, Repr

/-- The run failed for a stated reason. -/
def Outcome.failure (message : String) : Outcome :=
  { exit := 1, message := some message }

/-- The run ended well with the given lines. -/
def Outcome.success (lines : List String) : Outcome :=
  { exit := 0, stdout := String.join (lines.map (· ++ "\n")) }

/-- The text of a file, as far as `bytes?` answers with its bytes and they are well-formed text. -/
def textOf (name : String) (bytes? : Option ByteArray) : Except String String :=
  match bytes?.bind String.fromUTF8? with
  | some text => .ok text
  | none => .error s!"failed to read {name}"

/-- The text of a template file; blanks at its end are no part of the template. -/
def templateText (text : String) : String :=
  String.ofList (Text.dropTrailingBlanks text.toList)

/-- What `render` prints. -/
def renderLines (template : String) (values : List Value) (all : Bool) :
    Except String (List String) :=
  match MarkupTemplate.render (templateText template) values with
  | .error e => .error e.context
  | .ok rs => .ok (if all then rs else rs.drop (rs.length - 1))

/-- What `inspect` prints. -/
def inspectLines (template : String) : Except String (List String) :=
  match Template.ofMarkup (templateText template) with
  | .error e => .error (RenderError.template e).context
  | .ok t =>
    let skeleton := (t.skeleton.map Tree.toMarkup).getD ""
    .ok (("skeleton: " ++ skeleton) :: "descriptors:" ::
      t.descriptors.map fun d => "  " ++ d.text)

variable {m : Type → Type u} [Monad m]

/-- The values of data files, read one after the other up to the first that has none. -/
def loadAll (read : String → m (Option ByteArray)) :
    List String → ExceptT String m (List Value)
  | [] => return []
  | name :: names => do
    let text ← textOf name (← read name)
    match Yaml.load text with
    | .error _ => throw s!"failed to parse {name}"
    | .ok values => return values ++ (← loadAll read names)

/-- The lines that a command prints, with `read` answering for the files. -/
def execute (read : String → m (Option ByteArray)) : Command → ExceptT String m (List String)
  | .version => return ["stamp 0.1.0"]
  | .render template data all => do
    let text ← textOf template (← read template)
    let values ← loadAll read data
    renderLines text values all
  | .inspect template => do
    let text ← textOf template (← read template)
    inspectLines text

/-- A run with the given arguments, with `read` answering for the files. -/
def run (read : String → m (Option ByteArray)) (arguments : List String) : m Outcome := do
  match parse? arguments with
  | none => return { exit := 2 }
  | some command =>
    match ← (execute read command).run with
    | .ok lines => return .success lines
    | .error message => return .failure message

end MarkupTemplate.CommandLine
