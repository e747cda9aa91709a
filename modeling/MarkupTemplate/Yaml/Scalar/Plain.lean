import MarkupTemplate.Yaml.Cursor

/-!
# Plain scalars

A scalar without quotes: runs of text with gaps between them. Blanks inside a line are kept. One
line break is read as a space, and of several the first is dropped.
-/

namespace MarkupTemplate.Yaml

/-- The blanks and breaks between two runs of text. -/
structure Gap where
  /-- The blanks of a gap within one line, last one first. -/
  blanks : List Char := []
  /-- Whether the gap reaches over a line break. -/
  folded : Bool := false
  /-- The breaks after the first. -/
  extra : Nat := 0

/-- What a gap leaves in the scalar. -/
def Gap.text (g : Gap) : List Char :=
  if g.folded then
    if g.extra = 0 then [' '] else List.replicate g.extra '\n'
  else g.blanks.reverse

namespace Plain

/-- Whether the text of a plain scalar may go on here: a colon ends it before a word's end, and so
does any flow indicator inside a flow collection. -/
def goesOn (inFlow : Bool) (c : Char) (next : Option Char) : Bool :=
  if c = ':' && (endsWord next || inFlow && startsFlow next) then false
  else !(inFlow && isFlow c)

/-- The run of text at the start of `cs`. -/
def chunk (inFlow : Bool) : List Char → List Char
  | [] => []
  | c :: cs =>
    if !endsWord (some c) && goesOn inFlow c cs.head? then c :: chunk inFlow cs else []

/-- The gap here. A tab left of the column `indent` may only stand on a line without text. -/
def gap? (indent : Int) : Nat → Cursor → Gap → Option (Gap × Cursor)
  | 0, c, g => some (g, c)
  | fuel + 1, c, g =>
    match c.peek? with
    | none => some (g, c)
    | some ch =>
      if ch = '\n' then
        gap? indent fuel c.step
          (if c.fresh then { g with extra := g.extra + 1 }
            else { g with blanks := [], folded := true })
      else if !isSpace ch then some (g, c)
      else if !c.fresh then gap? indent fuel c.step { g with blanks := ch :: g.blanks }
      else if c.column < indent ∧ ch = '\t' then do
        let trailer ← c.trailer? true
        if endsLine trailer.cursor.peek? then gap? indent fuel trailer.cursor g else none
      else gap? indent fuel c.step g

/-- The scalar from here on, after the text `read`. -/
def from? (indent : Int) (inFlow : Bool) :
    Nat → Cursor → List Char → Gap → Option (List Char × Cursor)
  | 0, c, read, _ => some (read, c)
  | fuel + 1, c, read, g =>
    if c.atDocumentMark || c.peek? = some '#' then some (read, c)
    else if inFlow && c.peek? = some '-' && startsFlow (c.peekAt? 1) then none
    else do
      let text := chunk inFlow c.rest
      let read := if text.isEmpty then read else read ++ g.text ++ text
      let after := c.advance text.length
      match after.peek? with
      | none => some (read, after)
      | some ch =>
        if !endsWord (some ch) then some (read, after)
        else
          let (next, later) ← gap? indent (after.rest.length + 1) after {}
          if !inFlow && later.column < indent then some (read, later)
          else from? indent inFlow fuel later read next

/-- The plain scalar that starts here. Its lines after the first stand at column `indent` or to
the right of it; inside a flow collection its first line does too. -/
def read? (indent : Int) (inFlow : Bool) (c : Cursor) : Option (List Char × Cursor) :=
  if inFlow && c.column < indent then none
  else from? indent inFlow (c.rest.length + 1) c [] {}

end Plain

end MarkupTemplate.Yaml
