import MarkupTemplate.Content
import MarkupTemplate.Markup.Entity
import MarkupTemplate.Text

/-!
# Reading markup

Markup is a sequence of tags, comments and texts. Each of these pieces is read on its own, and they
are put together to trees: what stands between an opening tag and its closing tag are the children
of an element. No tag is closed unless it is written so. Markup is refused at the first character
that cannot go on, or at its end.

Results:
* `length_of_piece`: a piece takes up some of the text, so reading piece by piece ends.
-/

namespace MarkupTemplate.Markup

open Text

/-! ## Refusals -/

/-- Where markup is refused. -/
inductive Failure where
  /-- At a character that may not stand there. -/
  | unexpected (c : Char)
  /-- At the end, or at a closing tag that is not the one that is due. -/
  | unfinished
  deriving DecidableEq, Repr

namespace Failure

/-- Refusal at the start of the given text. -/
def atStart : List Char → Failure
  | [] => unfinished
  | c :: _ => unexpected c

/-- The wording of a refusal. -/
def message (f : Failure) : String :=
  "markup parse errors (count=1): found " ++
    match f with
    | unexpected c => Text.quoted c
    | unfinished => "end of input"

end Failure

/-! ## Names, values and attributes -/

/-- The characters of a tag. -/
def isTagChar (c : Char) : Bool :=
  c.isAlphanum || c = '-' || c = '_' || c = ':'

/-- The characters of an attribute's name. -/
def isNameChar (c : Char) : Bool :=
  isTagChar c || c = '.' || c = '@'

/-- A name of one or more characters that satisfy `p`, and what follows it. -/
def readName (p : Char → Bool) (cs : List Char) : Except Failure (String × List Char) :=
  let name := cs.takeWhile p
  if name = [] then .error (.atStart cs) else .ok (String.ofList name, cs.dropWhile p)

/-- What stands before the quote `q`, and what follows that quote. -/
def readUntilQuote (q : Char) (cs : List Char) : Except Failure (String × List Char) :=
  match cs.dropWhile (· ≠ q) with
  | [] => .error .unfinished
  | _ :: rest => .ok (String.ofList (decode (cs.takeWhile (· ≠ q))), rest)

/-- A value in quotes of either kind. -/
def readQuoted : List Char → Except Failure (String × List Char)
  | '"' :: cs => readUntilQuote '"' cs
  | '\'' :: cs => readUntilQuote '\'' cs
  | cs => .error (.atStart cs)

/-- The value after an attribute's name. Without an equals sign it is empty. -/
def readValue (cs : List Char) : Except Failure (String × List Char) :=
  match cs.dropWhile isBlank with
  | '=' :: rest => readQuoted (rest.dropWhile isBlank)
  | _ => .ok ("", cs)

/-- Whether an attribute starts here: blanks, then a character of a name. -/
def startsAttribute (cs : List Char) : Bool :=
  cs.head?.any isBlank && (cs.dropWhile isBlank).head?.any isNameChar

/-- An attribute, with the blanks before it. -/
def readAttribute (cs : List Char) : Except Failure ((String × String) × List Char) := do
  let (name, rest) ← readName isNameChar (cs.dropWhile isBlank)
  let (value, rest) ← readValue rest
  return ((name, value), rest)

/-! ## Lengths -/

theorem length_of_readName {p : Char → Bool} {cs rest : List Char} {name : String}
    (h : readName p cs = .ok (name, rest)) : rest.length < cs.length := by
  unfold readName at h
  dsimp only at h
  split at h
  · cases h
  · next hne =>
    obtain ⟨-, rfl⟩ := Prod.mk.inj (Except.ok.inj h)
    cases cs with
    | nil => simp at hne
    | cons c cs =>
      by_cases hc : p c
      · have := (List.dropWhile_suffix (l := cs) p).length_le
        simp only [List.dropWhile_cons, hc, if_true, List.length_cons]
        omega
      · simp [hc] at hne

theorem length_of_readUntilQuote {q : Char} {cs rest : List Char} {value : String}
    (h : readUntilQuote q cs = .ok (value, rest)) : rest.length < cs.length := by
  unfold readUntilQuote at h
  split at h
  · cases h
  · next hd =>
    obtain ⟨-, rfl⟩ := Prod.mk.inj (Except.ok.inj h)
    have := (List.dropWhile_suffix (l := cs) (· ≠ q)).length_le
    rw [hd] at this
    simp only [List.length_cons] at this
    omega

theorem length_of_readQuoted {cs rest : List Char} {value : String}
    (h : readQuoted cs = .ok (value, rest)) : rest.length < cs.length := by
  unfold readQuoted at h
  split at h
  · have := length_of_readUntilQuote h
    simp only [List.length_cons]
    omega
  · have := length_of_readUntilQuote h
    simp only [List.length_cons]
    omega
  · cases h

theorem length_of_readValue {cs rest : List Char} {value : String}
    (h : readValue cs = .ok (value, rest)) : rest.length ≤ cs.length := by
  unfold readValue at h
  split at h
  · next hd =>
    have h₁ := length_of_readQuoted h
    have h₂ := (List.dropWhile_suffix (l := cs) isBlank).length_le
    have h₃ := (List.dropWhile_suffix (l := ‹List Char›) isBlank).length_le
    rw [hd] at h₂
    simp only [List.length_cons] at h₂
    omega
  · obtain ⟨-, rfl⟩ := Prod.mk.inj (Except.ok.inj h)
    exact Nat.le_refl _

theorem length_of_readAttribute {cs rest : List Char} {a : String × String}
    (h : readAttribute cs = .ok (a, rest)) : rest.length < cs.length := by
  unfold readAttribute at h
  cases hn : readName isNameChar (cs.dropWhile isBlank) with
  | error e => rw [hn] at h; cases h
  | ok n =>
    obtain ⟨name, r⟩ := n
    rw [hn] at h
    cases hv : readValue r with
    | error e => simp [bind, Except.bind, hv] at h
    | ok v =>
      obtain ⟨value, r'⟩ := v
      simp only [bind, Except.bind, hv, pure, Except.pure, Except.ok.injEq, Prod.mk.injEq] at h
      obtain ⟨-, rfl⟩ := h
      have h₁ := length_of_readName hn
      have h₂ := length_of_readValue hv
      have h₃ := (List.dropWhile_suffix (l := cs) isBlank).length_le
      omega

/-! ## Tags -/

/-- The attributes here, in order, and what follows them. -/
def readAttributes (cs : List Char) : Except Failure (List (String × String) × List Char) :=
  if startsAttribute cs then
    match h : readAttribute cs with
    | .error e => .error e
    | .ok (a, rest) =>
      have := length_of_readAttribute h
      match readAttributes rest with
      | .error e => .error e
      | .ok (as, rest) => .ok (a :: as, rest)
  else .ok ([], cs)
termination_by cs.length

theorem length_of_readAttributes {cs rest : List Char} {as : List (String × String)}
    (h : readAttributes cs = .ok (as, rest)) : rest.length ≤ cs.length := by
  fun_induction readAttributes cs generalizing as rest with
  | case1 => cases h
  | case2 => cases h
  | case3 cs _ a r hr _ as' r' hr' ih =>
    obtain ⟨-, rfl⟩ := Prod.mk.inj (Except.ok.inj h)
    have h₁ := length_of_readAttribute hr
    have h₂ := ih hr'
    omega
  | case4 cs =>
    obtain ⟨-, rfl⟩ := Prod.mk.inj (Except.ok.inj h)
    exact Nat.le_refl _

/-- The end of an opening tag: whether it closes itself, and what follows it. -/
def readTagEnd (cs : List Char) : Except Failure (Bool × List Char) :=
  match cs.dropWhile isBlank with
  | '>' :: rest => .ok (false, rest)
  | '/' :: '>' :: rest => .ok (true, rest)
  | '/' :: rest => .error (.atStart rest)
  | rest => .error (.atStart rest)

/-- A piece of markup. -/
inductive Piece where
  /-- An opening tag; `closed` if it closes itself. -/
  | opening (e : Element) (closed : Bool)
  /-- A closing tag. -/
  | closing (tag : String)
  /-- A comment. -/
  | comment (s : String)
  /-- A text. -/
  | text (s : String)

/-- An opening tag after its `<`. -/
def readOpening (cs : List Char) : Except Failure (Piece × List Char) := do
  let (tag, rest) ← readName isTagChar cs
  let (attributes, rest) ← readAttributes rest
  let (closed, rest) ← readTagEnd rest
  return (.opening { tag, attributes := .ofList attributes } closed, rest)

/-- A closing tag after its `</`. -/
def readClosing (cs : List Char) : Except Failure (Piece × List Char) := do
  let (tag, rest) ← readName isTagChar cs
  match rest.dropWhile isBlank with
  | '>' :: rest => return (.closing tag, rest)
  | rest => throw (.atStart rest)

/-- The text before the first `-->`, and what follows that. -/
def readCommentBody : List Char → Except Failure (List Char × List Char)
  | [] => .error .unfinished
  | '-' :: '-' :: '>' :: rest => .ok ([], rest)
  | c :: cs => (readCommentBody cs).map fun r => (c :: r.1, r.2)

/-- A comment after its `<!`. -/
def readComment : List Char → Except Failure (Piece × List Char)
  | '-' :: '-' :: cs => (readCommentBody cs).map fun r => (.comment (String.ofList r.1), r.2)
  | '-' :: cs => .error (.atStart cs)
  | cs => .error (.atStart cs)

/-- The piece that starts with `c`. -/
def readPiece (c : Char) (cs : List Char) : Except Failure (Piece × List Char) :=
  if c = '<' then
    match cs with
    | '/' :: rest => readClosing rest
    | '!' :: rest => readComment rest
    | _ => readOpening cs
  else
    .ok (.text (String.ofList (decode (c :: cs.takeWhile (· ≠ '<')))), cs.dropWhile (· ≠ '<'))

theorem length_of_readTagEnd {cs rest : List Char} {closed : Bool}
    (h : readTagEnd cs = .ok (closed, rest)) : rest.length < cs.length := by
  have hd := (List.dropWhile_suffix (l := cs) isBlank).length_le
  unfold readTagEnd at h
  split at h
  · next heq =>
    obtain ⟨-, rfl⟩ := Prod.mk.inj (Except.ok.inj h)
    rw [heq] at hd
    simp only [List.length_cons] at hd
    omega
  · next heq =>
    obtain ⟨-, rfl⟩ := Prod.mk.inj (Except.ok.inj h)
    rw [heq] at hd
    simp only [List.length_cons] at hd
    omega
  · cases h
  · cases h

theorem length_of_readOpening {cs rest : List Char} {p : Piece}
    (h : readOpening cs = .ok (p, rest)) : rest.length < cs.length := by
  unfold readOpening at h
  cases hn : readName isTagChar cs with
  | error e => rw [hn] at h; cases h
  | ok n =>
    obtain ⟨tag, r₁⟩ := n
    cases ha : readAttributes r₁ with
    | error e => simp [bind, Except.bind, hn, ha] at h
    | ok a =>
      obtain ⟨as, r₂⟩ := a
      cases he : readTagEnd r₂ with
      | error e => simp [bind, Except.bind, hn, ha, he] at h
      | ok e =>
        obtain ⟨closed, r₃⟩ := e
        simp only [bind, Except.bind, hn, ha, he, pure, Except.pure, Except.ok.injEq,
          Prod.mk.injEq] at h
        obtain ⟨-, rfl⟩ := h
        have h₁ := length_of_readName hn
        have h₂ := length_of_readAttributes ha
        have h₃ := length_of_readTagEnd he
        omega

theorem length_of_readClosing {cs rest : List Char} {p : Piece}
    (h : readClosing cs = .ok (p, rest)) : rest.length < cs.length := by
  unfold readClosing at h
  cases hn : readName isTagChar cs with
  | error e => rw [hn] at h; cases h
  | ok n =>
    obtain ⟨tag, r⟩ := n
    have h₁ := length_of_readName hn
    have h₂ := (List.dropWhile_suffix (l := r) isBlank).length_le
    simp only [bind, Except.bind, hn] at h
    split at h
    · next heq =>
      simp only [pure, Except.pure, Except.ok.injEq, Prod.mk.injEq] at h
      obtain ⟨-, rfl⟩ := h
      rw [heq] at h₂
      simp only [List.length_cons] at h₂
      omega
    · cases h

theorem length_of_readCommentBody {cs body rest : List Char}
    (h : readCommentBody cs = .ok (body, rest)) : rest.length < cs.length := by
  fun_induction readCommentBody cs generalizing body with
  | case1 => cases h
  | case2 rest' =>
    obtain ⟨-, rfl⟩ := Prod.mk.inj (Except.ok.inj h)
    simp only [List.length_cons]
    omega
  | case3 c cs _ ih =>
    cases hb : readCommentBody cs with
    | error e => rw [hb] at h; cases h
    | ok r =>
      obtain ⟨body', rest'⟩ := r
      rw [hb] at h
      obtain ⟨-, rfl⟩ := Prod.mk.inj (Except.ok.inj h)
      have := ih hb
      simp only [List.length_cons] at this ⊢
      omega

theorem length_of_readComment {cs rest : List Char} {p : Piece}
    (h : readComment cs = .ok (p, rest)) : rest.length < cs.length := by
  unfold readComment at h
  split at h
  · next cs =>
    cases hb : readCommentBody cs with
    | error e => rw [hb] at h; cases h
    | ok r =>
      obtain ⟨body, rest'⟩ := r
      rw [hb] at h
      obtain ⟨-, rfl⟩ := Prod.mk.inj (Except.ok.inj h)
      have := length_of_readCommentBody hb
      simp only [List.length_cons]
      omega
  · cases h
  · cases h

/-- A piece takes up at least the character it starts with. -/
theorem length_of_piece {c : Char} {cs rest : List Char} {p : Piece}
    (h : readPiece c cs = .ok (p, rest)) : rest.length < (c :: cs).length := by
  unfold readPiece at h
  simp only [List.length_cons]
  split at h
  · split at h
    · have := length_of_readClosing h
      simp only [List.length_cons]
      omega
    · have := length_of_readComment h
      simp only [List.length_cons]
      omega
    · have := length_of_readOpening h
      omega
  · obtain ⟨-, rfl⟩ := Prod.mk.inj (Except.ok.inj h)
    have := (List.dropWhile_suffix (l := cs) (· ≠ '<')).length_le
    omega

/-! ## Trees -/

/-- An element whose closing tag is still to come. -/
structure Open where
  /-- The element. -/
  element : Element
  /-- The trees before it under the same parent, last one first. -/
  left : List (Tree Content)

/-- The trees of the text `cs`, where `opened` holds the elements that are open, innermost first,
and `left` the children of the innermost one so far, last one first. -/
def assemble (opened : List Open) (left : List (Tree Content)) (cs : List Char) :
    Except Failure (Forest Content) :=
  match cs with
  | [] => if opened.isEmpty then .ok (.ofTrees left.reverse) else .error .unfinished
  | c :: rest =>
    match h : readPiece c rest with
    | .error e =>
      if opened.isEmpty ∧ c = '<' ∧ rest.head? = some '/' then .error (.unexpected '/')
      else .error e
    | .ok (piece, after) =>
      have := length_of_piece h
      match piece with
      | .text s => assemble opened (⟨.text s, .nil⟩ :: left) after
      | .comment s => assemble opened (⟨.comment s, .nil⟩ :: left) after
      | .opening e true => assemble opened (⟨.element e, .nil⟩ :: left) after
      | .opening e false => assemble (⟨e, left⟩ :: opened) [] after
      | .closing tag =>
        match opened with
        | [] => .error (.unexpected '/')
        | ⟨e, outer⟩ :: opened =>
          if tag = e.tag then
            assemble opened (⟨.element e, .ofTrees left.reverse⟩ :: outer) after
          else .error .unfinished
termination_by cs.length
decreasing_by all_goals exact this

/-- The trees of a text. -/
def parse (text : String) : Except Failure (Forest Content) :=
  assemble [] [] text.toList

theorem parse_nil : parse "" = .ok .nil := by
  simp [parse, assemble, Forest.ofTrees]

end MarkupTemplate.Markup
