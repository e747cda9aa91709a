import MarkupTemplate.Descriptor

/-!
# Compiling templates

A source tree is split into a skeleton, which is free of placeholders, and descriptors that say
where data goes in it. A text becomes one text for each of its tokens, empty where a placeholder
was; an attribute with a placeholder becomes empty as a whole.
-/

namespace MarkupTemplate

/-! ## Tokens -/

/-- The text that holds the place of a token. -/
def Token.slot : Token → Content
  | static s => .text s
  | expression _ => .text ""

/-- The texts that hold the places of tokens. -/
def slots (tokens : List Token) : Forest Content :=
  .ofTrees (tokens.map fun t => ⟨t.slot, .nil⟩)

/-- The descriptors of the placeholders of a text, whose first token has the place `offset`. -/
def textDescriptors (offset : Nat) : List Token → List Descriptor
  | [] => []
  | .static _ :: tokens => textDescriptors (offset + 1) tokens
  | .expression e :: tokens => ⟨⟨[offset]⟩, .textContent e⟩ :: textDescriptors (offset + 1) tokens

@[simp] theorem width_slots (tokens : List Token) : (slots tokens).width = tokens.length := by
  simp [slots, ← Forest.length_trees]

/-! ## Attributes -/

/-- Whether an attribute value has a placeholder. -/
def hasPlaceholder (value : String) : Bool :=
  (tokenize value).any Token.isExpression

/-- The element with every attribute emptied that has a placeholder. -/
def Element.emptied (e : Element) : Element :=
  { e with attributes := e.attributes.mapValues fun v => if hasPlaceholder v then "" else v }

/-- The descriptors of the attributes that have a placeholder. -/
def Element.descriptors (e : Element) : List Descriptor :=
  (e.attributes.entries.filter fun a => hasPlaceholder a.2).map fun a =>
    ⟨.root, .attributeValue a.1 (tokenize a.2)⟩

/-! ## Trees -/

namespace Forest

/-- The skeleton of a forest: no placeholder is left in it, and nothing under texts and
comments. -/
def skeleton : Forest Content → Forest Content
  | nil => nil
  | cons a below beside =>
    (match a with
      | .text s => slots (tokenize s)
      | .element e => cons (.element e.emptied) below.skeleton nil
      | .comment s => cons (.comment s) nil nil
      | .fragment => cons .fragment below.skeleton nil) ++ beside.skeleton

/-- The descriptors of a forest whose first skeleton tree has the place `offset` among its
siblings, in document order. -/
def descriptors (offset : Nat) : Forest Content → List Descriptor
  | nil => []
  | cons a below beside =>
    match a with
    | .text s =>
      textDescriptors offset (tokenize s) ++ beside.descriptors (offset + (tokenize s).length)
    | .element e =>
      (e.descriptors ++ below.descriptors 0).map (·.nested offset) ++
        beside.descriptors (offset + 1)
    | .comment _ => beside.descriptors (offset + 1)
    | .fragment =>
      (below.descriptors 0).map (·.nested offset) ++ beside.descriptors (offset + 1)

end Forest

/-- What one source tree is compiled to. -/
inductive Parsed where
  /-- One tree, with descriptors relative to it. -/
  | single (tree : Tree Content) (descriptors : List Descriptor)
  /-- Trees on their own, as those of a text are, with descriptors relative to their parent. -/
  | spliced (trees : Forest Content) (descriptors : List Descriptor)

/-- What a source tree is compiled to. -/
def Tree.parse (t : Tree Content) : Parsed :=
  match t.label with
  | .text s => .spliced (slots (tokenize s)) (textDescriptors 0 (tokenize s))
  | .element e =>
    .single ⟨.element e.emptied, t.children.skeleton⟩ (e.descriptors ++ t.children.descriptors 0)
  | .comment s => .single ⟨.comment s, .nil⟩ []
  | .fragment => .single (.ofFragment t.children.skeleton) (t.children.descriptors 0)

/-- What a node that is no longer there is compiled to. -/
def Parsed.missing : Parsed := .spliced .nil []

/-- A compiled template: the skeleton, and where data goes in it. -/
structure Template where
  /-- The skeleton; none if it was taken away after the template had been put together. -/
  skeleton : Option (Tree Content)
  /-- Where data goes in it. -/
  descriptors : List Descriptor
  deriving DecidableEq

namespace Template

/-- The template without nodes. -/
def empty : Template :=
  ⟨some (.ofFragment .nil), []⟩

/-- The template of what was compiled; trees on their own get a fragment as their parent. -/
def ofParsed : Parsed → Template
  | .single t descriptors => ⟨some t, descriptors⟩
  | .spliced trees descriptors => ⟨some (.ofFragment trees), descriptors⟩

/-- The template of a source tree. -/
def ofTree (t : Tree Content) : Template :=
  ofParsed t.parse

/-- The template of a node of a document. -/
def ofNode (d : Document) (h : Handle) : Template :=
  ofParsed (((d.shape? h).map Tree.parse).getD .missing)

end Template

end MarkupTemplate
