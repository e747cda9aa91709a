/-!
# Positions in a data text

The character classes of the data language, and the form in which its texts are read: every line
break is one `\n`, and a NUL ends the text.

A cursor is the text still to be read together with where it stands: its index, line and column,
and whether only blanks lie between it and the start of its line.
-/

namespace MarkupTemplate.Yaml

/-! ## Characters -/

/-- A space or a tab. -/
def isSpace (c : Char) : Bool :=
  c = ' ' || c = '\t'

/-- Whether the line ends here: at a break or at the end of the text. -/
def endsLine : Option Char → Bool
  | none => true
  | some c => c = '\n'

/-- Whether a word ends here: at a space, a tab, a break or the end of the text. -/
def endsWord : Option Char → Bool
  | none => true
  | some c => isSpace c || c = '\n'

/-- The indicators that structure flow collections. -/
def isFlow (c : Char) : Bool :=
  c = ',' || c = '[' || c = ']' || c = '{' || c = '}'

/-- Whether a flow indicator comes next. -/
def startsFlow (c? : Option Char) : Bool :=
  c?.any isFlow

/-- The characters of a directive's name and of a tag handle. -/
def isWordChar (c : Char) : Bool :=
  c.isAlphanum || c = '-' || c = '_'

/-- The characters of a tag's URI. -/
def isUriChar (c : Char) : Bool :=
  isWordChar c || "#;/?:@&=+$,.!~*'()[]%".toList.contains c

/-- The characters of a shorthand tag, which ends before a flow indicator. -/
def isTagChar (c : Char) : Bool :=
  isUriChar c && !isFlow c && c != '!'

/-- The characters of an anchor's name. -/
def isAnchorChar (c : Char) : Bool :=
  !isSpace c && c != '\n' && c != '\uFEFF' && !isFlow c

/-- The text up to its first NUL, with each carriage return, alone or before a line feed, turned
into one line feed. -/
def unified : List Char → List Char
  | [] => []
  | '\x00' :: _ => []
  | '\r' :: '\n' :: cs => '\n' :: unified cs
  | '\r' :: cs => '\n' :: unified cs
  | c :: cs => c :: unified cs

/-! ## Cursors -/

/-- A place in a text. -/
structure Cursor where
  /-- The text from here on. -/
  rest : List Char
  /-- How many characters have been read. -/
  index : Nat
  /-- How many lines have been read. -/
  line : Nat
  /-- How many characters of this line have been read. -/
  column : Nat
  /-- Whether all that has been read of this line is blank. -/
  fresh : Bool

namespace Cursor

/-- The start of a text. -/
def start (cs : List Char) : Cursor :=
  ⟨cs, 0, 0, 0, true⟩

/-- The next character. -/
def peek? (c : Cursor) : Option Char :=
  c.rest.head?

/-- The character after the next `n`. -/
def peekAt? (c : Cursor) (n : Nat) : Option Char :=
  c.rest[n]?

/-- Past the next character. -/
def step (c : Cursor) : Cursor :=
  match c.rest with
  | [] => c
  | ch :: cs =>
    if ch = '\n' then ⟨cs, c.index + 1, c.line + 1, 0, true⟩
    else ⟨cs, c.index + 1, c.line, c.column + 1, c.fresh && isSpace ch⟩

/-- Past the next `n` characters. -/
def advance (c : Cursor) : Nat → Cursor
  | 0 => c
  | n + 1 => c.step.advance n

/-- Past the run of characters that satisfy `p`. -/
def skip (c : Cursor) (p : Char → Bool) : Cursor :=
  c.advance (c.rest.takeWhile p).length

/-- The run of characters that satisfy `p`. -/
def run (c : Cursor) (p : Char → Bool) : List Char :=
  c.rest.takeWhile p

/-- To the end of the line. -/
def toLineEnd (c : Cursor) : Cursor :=
  c.skip (· ≠ '\n')

/-- Whether three characters `ch` stand here as a word of their own. -/
def atTriple (c : Cursor) (ch : Char) : Bool :=
  c.rest.take 3 = [ch, ch, ch] && endsWord (c.peekAt? 3)

/-- Whether a marker between documents stands here, at the start of a line. -/
def atDocumentMark (c : Cursor) : Bool :=
  c.column = 0 && (c.atTriple '-' || c.atTriple '.')

/-- What follows an item on its line. -/
structure Trailer where
  /-- The place of the first character that is neither blank nor comment. -/
  cursor : Cursor
  /-- Whether a tab was skipped. -/
  tab : Bool
  /-- Whether a space was skipped. -/
  space : Bool

/-- Skips blanks (`tabs` says whether tabs are among them) and a comment, which must have a blank
before it. -/
def trailer? (c : Cursor) (tabs : Bool) : Option Trailer :=
  let blanks := c.run fun ch => ch = ' ' || tabs && ch = '\t'
  let after := c.advance blanks.length
  if after.peek? = some '#' then
    if blanks.isEmpty then none
    else some ⟨after.toLineEnd, blanks.contains '\t', blanks.contains ' '⟩
  else some ⟨after, blanks.contains '\t', blanks.contains ' '⟩

end Cursor

end MarkupTemplate.Yaml
