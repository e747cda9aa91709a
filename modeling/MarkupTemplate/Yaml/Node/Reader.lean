import MarkupTemplate.Yaml.Schema
import MarkupTemplate.Yaml.Token.Lexer

/-!
# Documents from tokens

Reads the nodes of a stream of documents from its tokens. A data text holds one value for each of
its documents.
-/

namespace MarkupTemplate.Yaml

/-! ## Anchors -/

/-- The anchors of a document so far. -/
structure Anchors where
  /-- Each name with the number of its node, last one first. -/
  names : List (String × Nat) := []
  /-- The nodes that are complete, by number. -/
  nodes : List (Nat × Node) := []

namespace Anchors

/-- Gives the next number to `name`. -/
def declare (a : Anchors) (name : String) : Nat × Anchors :=
  (a.names.length, { a with names := (name, a.names.length) :: a.names })

/-- The node with number `n` is complete. -/
def complete (a : Anchors) (n? : Option Nat) (node : Node) : Anchors :=
  match n? with
  | some n => { a with nodes := (n, node) :: a.nodes }
  | none => a

/-- What a name refers to: nothing if it is unknown, and a bad node while its own is not
complete. -/
def lookup? (a : Anchors) (name : String) : Option Node := do
  return ((a.nodes.lookup (← a.names.lookup name))).getD .bad

end Anchors

/-! ## Properties -/

/-- What is left to be read, and the anchors so far. -/
structure Reader where
  /-- The tokens from here on. -/
  tokens : List Token
  /-- The anchors of the document. -/
  anchors : Anchors := {}

/-- What a tag handle stands for, when the last directive declared `declared`. A named handle that
was not declared stands for nothing. -/
def expand? (declared : Option (String × String)) (handle : String) : Option String :=
  match declared.filter (·.1 = handle) with
  | some (_, expansion) => some expansion
  | none =>
    if handle = "!!" then some commonTypes
    else if 2 ≤ handle.length ∧ handle.toList.head? = some '!' ∧ handle.toList.getLast? = some '!'
    then none
    else some handle

/-- What stands before a node. -/
structure Properties where
  /-- The number of its anchor. -/
  anchor : Option Nat := none
  /-- Its tag. -/
  tag : Option (String × String) := none

/-- The properties here: an anchor and a tag, in either order. -/
def properties? (declared : Option (String × String)) (r : Reader) : Option (Properties × Reader) :=
  match r.tokens with
  | .anchor name :: .tag handle suffix :: ts => do
    let (n, anchors) := r.anchors.declare name
    return ({ anchor := some n, tag := some (← expand? declared handle, suffix) }, ⟨ts, anchors⟩)
  | .anchor name :: ts =>
    let (n, anchors) := r.anchors.declare name
    some ({ anchor := some n }, ⟨ts, anchors⟩)
  | .tag handle suffix :: .anchor name :: ts => do
    let (n, anchors) := r.anchors.declare name
    return ({ anchor := some n, tag := some (← expand? declared handle, suffix) }, ⟨ts, anchors⟩)
  | .tag handle suffix :: ts => do
    return ({ tag := some (← expand? declared handle, suffix) }, ⟨ts, r.anchors⟩)
  | _ => some ({}, r)

/-! ## Nodes -/

/-- Where a node stands, which decides what it may be. -/
structure Place where
  /-- Whether it may be laid out by indentation. -/
  block : Bool := false
  /-- Whether a list may start at it without an indentation of its own. -/
  unindented : Bool := false
  /-- The tokens before which nothing is written, which is an empty node. -/
  ends : List Token := []

namespace Place

/-- An item of a list laid out by indentation. -/
def blockItem : Place :=
  { block := true, ends := [.blockEntry, .blockEnd] }

/-- An item of a list without an indentation of its own. -/
def unindentedItem : Place :=
  { block := true, ends := [.blockEntry, .key, .value, .blockEnd] }

/-- A key, or what it holds, in a mapping laid out by indentation. -/
def blockPart : Place :=
  { block := true, unindented := true, ends := [.key, .value, .blockEnd] }

/-- A key after its mark in a braced mapping. -/
def flowKey : Place :=
  { ends := [.value, .flowEntry, .flowMappingEnd] }

/-- What a key holds in a braced mapping. -/
def flowValue : Place :=
  { ends := [.flowEntry, .flowMappingEnd] }

/-- What a key holds in a bracketed list. -/
def pairValue : Place :=
  { ends := [.flowEntry, .flowSequenceEnd] }

end Place

/-- Past the comma before an entry; the first entry has none. -/
def afterComma? (first : Bool) (r : Reader) : Option Reader :=
  if first then some r
  else match r.tokens with
    | .flowEntry :: ts => some { r with tokens := ts }
    | _ => none

/-- Properties alone stand for an empty scalar. -/
def bare? (props : Properties) (r : Reader) : Option (Node × Reader) :=
  if props.anchor.isSome || props.tag.isSome then some (Node.ofScalar true props.tag "", r)
  else none

mutual

/-- The node here. -/
def node? (declared : Option (String × String)) :
    (fuel : Nat) → Place → Reader → Option (Node × Reader)
  | 0, _, _ => none
  | fuel + 1, place, r =>
    if r.tokens.head?.any place.ends.contains then some (Node.empty, r)
    else match r.tokens with
      | .reference name :: ts => do return (← r.anchors.lookup? name, { r with tokens := ts })
      | _ => do
        let (props, r) ← properties? declared r
        let (node, r) ← content? declared fuel place props r
        return (node, { r with anchors := r.anchors.complete props.anchor node })

/-- The node here after its properties. -/
def content? (declared : Option (String × String)) :
    (fuel : Nat) → Place → Properties → Reader → Option (Node × Reader)
  | 0, _, _, _ => none
  | fuel + 1, place, props, r =>
    match r.tokens with
    | .scalar plain text :: ts =>
      some (Node.ofScalar plain props.tag text, { r with tokens := ts })
    | .flowSequenceStart :: ts => do
      let (items, r) ← flowItems? declared fuel true { r with tokens := ts }
      return (.sequence items, r)
    | .flowMappingStart :: ts => do
      let (nodes, r) ← flowEntries? declared fuel true { r with tokens := ts }
      return (.ofNodes nodes, r)
    | token :: ts =>
      if token = .blockEntry ∧ place.unindented then do
        let (items, r) ← unindentedItems? declared fuel r
        return (.sequence items, r)
      else if token = .blockSequenceStart ∧ place.block then do
        let (items, r) ← blockItems? declared fuel { r with tokens := ts }
        return (.sequence items, r)
      else if token = .blockMappingStart ∧ place.block then do
        let (nodes, r) ← blockEntries? declared fuel { r with tokens := ts }
        return (.ofNodes nodes, r)
      else bare? props r
    | [] => bare? props r

/-- The rest of a list laid out by indentation. -/
def blockItems? (declared : Option (String × String)) :
    (fuel : Nat) → Reader → Option (List Node × Reader)
  | 0, _ => none
  | fuel + 1, r =>
    match r.tokens with
    | .blockEnd :: ts => some ([], { r with tokens := ts })
    | .blockEntry :: ts => do
      let (item, r) ← node? declared fuel .blockItem { r with tokens := ts }
      let (items, r) ← blockItems? declared fuel r
      return (item :: items, r)
    | _ => none

/-- The rest of a list without an indentation of its own. -/
def unindentedItems? (declared : Option (String × String)) :
    (fuel : Nat) → Reader → Option (List Node × Reader)
  | 0, _ => none
  | fuel + 1, r =>
    match r.tokens with
    | .blockEntry :: ts => do
      let (item, r) ← node? declared fuel .unindentedItem { r with tokens := ts }
      let (items, r) ← unindentedItems? declared fuel r
      return (item :: items, r)
    | _ => some ([], r)

/-- What the key before this place holds: nothing where there is no colon. -/
def held? (declared : Option (String × String)) :
    (fuel : Nat) → Place → Reader → Option (Node × Reader)
  | 0, _, _ => none
  | fuel + 1, place, r =>
    match r.tokens with
    | .value :: ts => node? declared fuel place { r with tokens := ts }
    | _ => some (Node.empty, r)

/-- The keys and what they hold, in turn, of the rest of a mapping laid out by indentation. -/
def blockEntries? (declared : Option (String × String)) :
    (fuel : Nat) → Reader → Option (List Node × Reader)
  | 0, _ => none
  | fuel + 1, r =>
    match r.tokens with
    | .blockEnd :: ts => some ([], { r with tokens := ts })
    | .key :: ts => do
      let (key, r) ← node? declared fuel .blockPart { r with tokens := ts }
      let (value, r) ← held? declared fuel .blockPart r
      let (nodes, r) ← blockEntries? declared fuel r
      return (key :: value :: nodes, r)
    | .value :: _ => do
      let (value, r) ← held? declared fuel .blockPart r
      let (nodes, r) ← blockEntries? declared fuel r
      return (Node.empty :: value :: nodes, r)
    | _ => none

/-- The rest of a bracketed list. -/
def flowItems? (declared : Option (String × String)) :
    (fuel : Nat) → (first : Bool) → Reader → Option (List Node × Reader)
  | 0, _, _ => none
  | fuel + 1, first, r =>
    match r.tokens with
    | .flowSequenceEnd :: ts => some ([], { r with tokens := ts })
    | _ => do
      let r ← afterComma? first r
      match r.tokens with
      | .flowSequenceEnd :: ts => return ([], { r with tokens := ts })
      | .key :: ts =>
        let (pair, r) ← pair? declared fuel { r with tokens := ts }
        let (items, r) ← flowItems? declared fuel false r
        return (pair :: items, r)
      | _ =>
        let (item, r) ← node? declared fuel {} r
        let (items, r) ← flowItems? declared fuel false r
        return (item :: items, r)

/-- A mapping of one pair in a bracketed list, after the mark of its key. A mark with no key takes
the token after it along. -/
def pair? (declared : Option (String × String)) :
    (fuel : Nat) → Reader → Option (Node × Reader)
  | 0, _ => none
  | fuel + 1, r => do
    let (key, r) ← (match r.tokens with
      | .value :: ts | .flowEntry :: ts | .flowSequenceEnd :: ts =>
        some (Node.empty, { r with tokens := ts })
      | _ => node? declared fuel {} r)
    let (value, r) ← held? declared fuel .pairValue r
    return (.ofNodes [key, value], r)

/-- The keys and what they hold, in turn, of the rest of a braced mapping. -/
def flowEntries? (declared : Option (String × String)) :
    (fuel : Nat) → (first : Bool) → Reader → Option (List Node × Reader)
  | 0, _, _ => none
  | fuel + 1, first, r =>
    match r.tokens with
    | .flowMappingEnd :: ts => some ([], { r with tokens := ts })
    | _ => do
      let r ← afterComma? first r
      match r.tokens with
      | .flowMappingEnd :: ts => return ([], { r with tokens := ts })
      | .key :: ts =>
        let (key, r) ← node? declared fuel .flowKey { r with tokens := ts }
        let (value, r) ← held? declared fuel .flowValue r
        let (nodes, r) ← flowEntries? declared fuel false r
        return (key :: value :: nodes, r)
      | .value :: _ =>
        let (value, r) ← held? declared fuel .flowValue r
        let (nodes, r) ← flowEntries? declared fuel false r
        return (Node.empty :: value :: nodes, r)
      | _ =>
        let (key, r) ← node? declared fuel {} r
        let (nodes, r) ← flowEntries? declared fuel false r
        return (key :: Node.empty :: nodes, r)

end

/-! ## Documents -/

/-- Whether a token is a directive. -/
def Token.isDirective : Token → Bool
  | versionDirective => true
  | tagDirective _ _ => true
  | _ => false

/-- Whether a document of which nothing is written ends before the given token. -/
def Token.endsEmptyDocument (t : Token) : Bool :=
  t.isDirective || t = .documentStart || t = .documentEnd

/-- The directives here: what the last of them declares, and the tokens after them. The version is
given at most once. -/
def directives? : (versioned : Bool) → Option (String × String) → List Token →
    Option (Option (String × String) × List Token)
  | versioned, _, .versionDirective :: ts => if versioned then none else directives? true none ts
  | versioned, _, .tagDirective handle expansion :: ts =>
    directives? versioned (some (handle, expansion)) ts
  | _, declared, ts => some (declared, ts)

/-- The root of the document here, and the tokens after it. Unless `bare`, the document needs a
marker before it. -/
def root? (bare : Bool) (tokens : List Token) : Option (Node × List Token) := do
  let place : Place := { block := true }
  let fuel := 4 * tokens.length + 4
  if bare && !tokens.head?.any (fun t => t.isDirective || t = .documentStart) then
    let (node, r) ← node? none fuel place ⟨tokens, {}⟩
    return (node, r.tokens)
  else
    let (declared, ts) ← directives? false none tokens
    match ts with
    | .documentStart :: ts =>
      if ts.head?.all Token.endsEmptyDocument then return (Node.empty, ts)
      else
        let (node, r) ← node? declared fuel place ⟨ts, {}⟩
        return (node, r.tokens)
    | _ => none

/-- The roots of the documents here; each has at least one token. A document that is followed by
directives needs a marker at its end. -/
def roots? : (fuel : Nat) → (bare : Bool) → List Token → Option (List Node)
  | 0, _, _ => none
  | fuel + 1, bare, tokens =>
    match tokens.dropWhile (· = .documentEnd) with
    | [] => some []
    | ts => do
      let (node, ts) ← root? bare ts
      if ts.head?.any Token.isDirective then none
      else
        let nodes ← roots? fuel (ts.head? = some .documentEnd) ts
        return node :: nodes

/-- The documents of a stream of tokens. -/
def documents? (tokens : List Token) : Option (List Node) :=
  roots? (tokens.length + 1) true tokens

/-! ## Data texts -/

/-- Why a data text holds no values. -/
inductive LoadError where
  /-- It is not well formed. -/
  | malformed
  /-- A document has a node that is no value. -/
  | unsupported
  deriving DecidableEq, Repr

/-- The wording of a load error. -/
def LoadError.message : LoadError → String
  | malformed => "invalid data yaml"
  | unsupported => "yaml aliases and invalid scalars are not supported"

/-- The documents of a data text, if it is well formed. -/
def nodes? (text : String) : Option (List Node) := do
  documents? (← tokens? text)

/-- The values of a data text, one for each document. -/
def load (text : String) : Except LoadError (List Value) :=
  match nodes? text with
  | none => .error .malformed
  | some nodes =>
    match nodes.mapM Node.toValue? with
    | none => .error .unsupported
    | some values => .ok values

end MarkupTemplate.Yaml
