import MarkupTemplate.Value.Basic

/-!
# Placeholders

A placeholder is a dotted path of names between braces, with blanks allowed inside the braces. A
text is split into its placeholders, read from the left, and the static text around them; a brace
that opens no placeholder is static text.

Results:
* `length_of_placeholder?`: a placeholder takes up some of the text.
-/

namespace MarkupTemplate

/-- A part of a text: static text, or the path of a placeholder. -/
inductive Token where
  /-- Text that stands as it is. -/
  | static (text : String)
  /-- The path of a placeholder, without its braces and padding. -/
  | expression (path : String)
  deriving DecidableEq, Repr

namespace Token

/-- Whether the token is a placeholder. -/
def isExpression : Token → Bool
  | static _ => false
  | expression _ => true

/-- The token as it is written in a text. -/
def written : Token → String
  | static s => s
  | expression path => "\x7b" ++ path ++ "\x7d"

/-- The token with its placeholder filled from `v`; a path that leads nowhere leaves nothing. -/
def fill (v : Value) : Token → String
  | static s => s
  | expression path => ((v.at? path).map Value.text).getD ""

@[simp] theorem fill_static (v : Value) (s : String) : (static s).fill v = s := rfl

end Token

namespace Placeholder

open Text

/-! ## The grammar of a placeholder -/

/-- Whether a name may start with `c`. -/
def isNameStart (c : Char) : Bool :=
  c.isAlpha || c = '_' || c = '$'

/-- Whether a name may go on with `c`. -/
def isNameChar (c : Char) : Bool :=
  c.isAlphanum || c = '_' || c = '$'

/-- A name: one character that may start it, then characters that may go on. -/
def isName : List Char → Bool
  | [] => false
  | c :: cs => isNameStart c && cs.all isNameChar

/-- Whether `c` may stand in a path. -/
def isPathChar (c : Char) : Bool :=
  isNameChar c || c = '.'

/-- A path: names with single dots between them. -/
def isPath (cs : List Char) : Bool :=
  (segments cs).all isName

/-- The path of the placeholder at the start of the text, and the text after that placeholder. -/
def placeholder? : List Char → Option (List Char × List Char)
  | '{' :: cs =>
    let inner := cs.dropWhile isBlank
    match (inner.dropWhile isPathChar).dropWhile isBlank with
    | '}' :: rest =>
      let path := inner.takeWhile isPathChar
      if isPath path then some (path, rest) else none
    | _ => none
  | _ => none

theorem length_of_placeholder? {cs path rest : List Char}
    (h : placeholder? cs = some (path, rest)) : rest.length < cs.length := by
  unfold placeholder? at h
  split at h
  case h_2 => cases h
  next cs =>
    dsimp only at h
    split at h
    case h_2 => cases h
    next rest' hrest =>
      split at h
      case isFalse => cases h
      obtain ⟨-, rfl⟩ := Prod.mk.inj (Option.some.inj h)
      have h₁ := (List.dropWhile_suffix (l := cs) isBlank).length_le
      have h₂ := (List.dropWhile_suffix (l := cs.dropWhile isBlank) isPathChar).length_le
      have h₃ := (List.dropWhile_suffix (l := (cs.dropWhile isBlank).dropWhile isPathChar)
        isBlank).length_le
      rw [hrest] at h₃
      simp only [List.length_cons] at h₃ ⊢
      omega

/-! ## Splitting a text -/

/-- The tokens of `tokens` after the static text whose characters are `run`, last one first. -/
def afterRun (run : List Char) (tokens : List Token) : List Token :=
  if run = [] then tokens else .static (String.ofList run.reverse) :: tokens

/-- The tokens of the static text `run`, last character first, followed by the text `cs`. -/
def tokensFrom (run cs : List Char) : List Token :=
  match cs with
  | [] => afterRun run []
  | c :: rest =>
    match h : placeholder? (c :: rest) with
    | some (path, after) =>
      have := length_of_placeholder? h
      afterRun run (.expression (String.ofList path) :: tokensFrom [] after)
    | none => tokensFrom (c :: run) rest
termination_by cs.length
decreasing_by all_goals simp_all

end Placeholder

/-- The tokens of a text: its placeholders, read from the left, and the static text around them. -/
def tokenize (text : String) : List Token :=
  Placeholder.tokensFrom [] text.toList

/-- The text that its tokens leave when they are filled from `v`. -/
def fillTokens (v : Value) (tokens : List Token) : String :=
  String.join (tokens.map (Token.fill v))

end MarkupTemplate
