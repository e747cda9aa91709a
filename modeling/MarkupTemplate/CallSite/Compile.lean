import MarkupTemplate.CallSite.Gap
import MarkupTemplate.Template.Instance

/-!
# Call sites

A call site is a list of markup fragments with gaps between them, into which data goes. It is
compiled to a template whose expressions are the numbers of the gaps, to be filled from a list.
-/

namespace MarkupTemplate

/-- A list of markup fragments, and the identity of the place where it stands. -/
structure CallSite where
  /-- The identity: two call sites may have the same fragments. -/
  id : Nat
  /-- The fragments. -/
  fragments : List String
  deriving DecidableEq, Repr

/-- Why a call site has no template. -/
inductive CompileError where
  /-- The fragments with the markers between them are not well-formed markup. -/
  | markup (e : Markup.Failure)
  /-- The gaps are not in order. -/
  | gaps (e : Gap.Disorder)
  deriving DecidableEq, Repr

/-- The wording of why a call site has no template. -/
def CompileError.message : CompileError → String
  | markup e => e.message
  | gaps e => e.message

namespace Forest

/-- The tokens of an attribute's value, if it has a marker. -/
def gapTokens? (value : String) : Option (List Token) :=
  let tokens := Gap.split value
  if tokens.any Token.isExpression then some tokens else none

/-- The descriptors of the markers that a node itself has. -/
def ownGaps : Content → List Descriptor
  | .comment s =>
    match Gap.ofComment? s with
    | some gap => [⟨.root, .textContent (toString gap)⟩]
    | none => []
  | .element e => e.attributes.entries.filterMap fun a =>
      (gapTokens? a.2).map fun tokens => ⟨.root, .attributeValue a.1 tokens⟩
  | _ => []

/-- The descriptors of the markers of a forest that follows `offset` other trees, in document
order. -/
def gapDescriptors (offset : Nat) : Forest Content → List Descriptor
  | nil => []
  | cons a below beside =>
    (ownGaps a ++ below.gapDescriptors 0).map (·.nested offset) ++
      beside.gapDescriptors (offset + 1)

/-- A node with its markers emptied: a marker becomes a text, and an attribute with a marker is
emptied as a whole. -/
def withoutGaps : Content → Content
  | .comment s => if (Gap.ofComment? s).isSome then .text "" else .comment s
  | .element e => .element { e with
      attributes := e.attributes.mapValues fun v => if (gapTokens? v).isSome then "" else v }
  | c => c

end Forest

/-- The numbers of the gaps that a descriptor's expressions name. -/
def Descriptor.gapNumbers (d : Descriptor) : List String :=
  match d.target with
  | .textContent e => [e]
  | .attributeValue _ tokens => tokens.filterMap fun
      | .static _ => none
      | .expression e => some e

namespace CallSite

/-- The given fragments, each with the marker of a gap before it; the first gap is `k`. -/
def markupFrom (k : Nat) : List String → List Char
  | [] => []
  | f :: fs => Gap.marker k ++ f.toList ++ markupFrom (k + 1) fs

/-- The fragments as one text, with markers between them. -/
def markup (site : CallSite) : List Char :=
  match site.fragments with
  | [] => []
  | f :: fs => f.toList ++ markupFrom 0 fs

/-- How many gaps there are. -/
def gapCount (site : CallSite) : Nat :=
  site.fragments.length - 1

/-- The template of a call site. -/
def compile (site : CallSite) : Except CompileError Template :=
  match Markup.parse (String.ofList site.markup) with
  | .error e => .error (.markup e)
  | .ok f =>
    let descriptors := f.gapDescriptors 0
    match Gap.occupyAll site.gapCount (descriptors.flatMap Descriptor.gapNumbers) with
    | .error e => .error (.gaps e)
    | .ok () => .ok ⟨some (.ofFragment (f.map Forest.withoutGaps)), descriptors⟩

end CallSite

end MarkupTemplate
