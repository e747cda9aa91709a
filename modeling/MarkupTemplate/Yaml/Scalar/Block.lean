import MarkupTemplate.Yaml.Cursor

/-!
# Block scalars

Indented text after `|` or `>`. The first kind keeps its line breaks; in the second a break
between two lines of text is read as a space. The header may say how deep the text is indented,
and what becomes of the breaks at its end.
-/

namespace MarkupTemplate.Yaml.Block

/-- What becomes of the line breaks at the end of a block scalar. -/
inductive Chomping where
  /-- All are dropped. -/
  | strip
  /-- One is kept. -/
  | clip
  /-- All are kept. -/
  | keep
  deriving DecidableEq

/-- The chomping that an indicator asks for. -/
def chomping? (c? : Option Char) : Option Chomping :=
  match c? with
  | some '+' => some .keep
  | some '-' => some .strip
  | _ => none

/-- What the header of a block scalar says. -/
structure Header where
  /-- The chomping. -/
  chomping : Chomping
  /-- The extra indentation of the text, if it is given. -/
  increment : Option Nat

/-- The indentation indicator here, if there is one; it is not zero. -/
def increment? (c : Cursor) : Option (Option Nat × Cursor) :=
  match c.peek? with
  | some ch =>
    if ch.isDigit then
      if ch = '0' then none else some (some (ch.toNat - '0'.toNat), c.step)
    else some (none, c)
  | none => some (none, c)

/-- The two indicators of the header, in either order. -/
def header? (c : Cursor) : Option (Header × Cursor) :=
  match chomping? c.peek? with
  | some chomping => do
    let (increment, after) ← increment? c.step
    return ({ chomping, increment }, after)
  | none => do
    let (increment, after) ← increment? c
    match increment, chomping? after.peek? with
    | some _, some chomping => return ({ chomping, increment }, after.step)
    | _, _ => return ({ chomping := .clip, increment }, after)

/-- Skips empty lines and the indentation of the first line of text: the deepest indentation met,
how many lines were skipped, and the place of the text. -/
def firstLine : Nat → Cursor → (deepest skipped : Nat) → Nat × Nat × Cursor
  | 0, c, deepest, skipped => (deepest, skipped, c)
  | fuel + 1, c, deepest, skipped =>
    let c := c.skip (· = ' ')
    let deepest := max deepest c.column
    if c.peek? = some '\n' then firstLine fuel c.step deepest (skipped + 1)
    else (deepest, skipped, c)

/-- How many columns can be skipped as the indentation of a line whose depth is known beforehand;
a scalar with a deeper text ends after its first line. -/
def deepestSkip : Nat :=
  16

/-- Skips empty lines and up to `indent` columns of the next line of text, as far as they can be
skipped. -/
def nextLine (indent : Nat) : Nat → Cursor → Nat → Nat × Cursor
  | 0, c, skipped => (skipped, c)
  | fuel + 1, c, skipped =>
    let c := c.advance (min (min indent deepestSkip - c.column) (c.run (· = ' ')).length)
    if c.peek? = some '\n' then nextLine indent fuel c.step (skipped + 1)
    else (skipped, c)

/-- The lines of text read so far and the breaks after them. -/
structure Lines where
  /-- The text, with the breaks inside it. -/
  text : List Char := []
  /-- Whether the last line ended in a break. -/
  broken : Bool := false
  /-- The empty lines after that. -/
  empty : Nat := 0
  /-- Whether the last line of text started with a blank. -/
  blank : Bool := false

/-- The lines so far with the breaks before a further line of text, which starts with a blank if
`blank`. -/
def Lines.joined (ls : Lines) (literal blank : Bool) : List Char :=
  if !literal && ls.broken && !ls.blank && !blank then
    ls.text ++ if ls.empty = 0 then [' '] else List.replicate ls.empty '\n'
  else ls.text ++ (if ls.broken then ['\n'] else []) ++ List.replicate ls.empty '\n'

/-- The lines of text at column `indent`. -/
def lines (literal : Bool) (indent : Nat) : Nat → Cursor → Lines → Lines × Cursor
  | 0, c, ls => (ls, c)
  | fuel + 1, c, ls =>
    if c.column ≠ indent || c.rest.isEmpty || indent = 0 && c.atTriple '.' then (ls, c)
    else
      let blank := c.peek?.any isSpace
      let text := ls.joined literal blank ++ c.run (· ≠ '\n')
      let after := c.toLineEnd
      if after.rest.isEmpty then ({ text, blank }, after)
      else
        let (empty, later) := nextLine indent (after.rest.length + 1) after.step 0
        lines literal indent fuel later { text, broken := true, empty, blank }

/-- What follows the last line of text, when the scalar ends at `c`. -/
def Chomping.tail (ch : Chomping) (ls : Lines) (indent : Nat) (c : Cursor) : List Char :=
  match ch with
  | .strip => []
  | _ =>
    (if ls.broken then ['\n'] else []) ++
      (if c.rest.isEmpty && max indent 1 ≤ c.column then ['\n'] else []) ++
      if ch = .keep then List.replicate ls.empty '\n' else []

/-- What a scalar without a line of text holds: `broken` says whether its header's line ended,
and `empty` lines followed. -/
def Chomping.alone (ch : Chomping) (broken : Bool) (empty : Nat) : List Char :=
  if !broken then []
  else match ch with
    | .strip => []
    | .clip => ['\n']
    | .keep => if empty = 0 then ['\n'] else List.replicate empty '\n'

/-- The block scalar whose header starts here, within a collection at column `outer` (minus one
outside of all). -/
def read? (literal : Bool) (outer : Int) (c : Cursor) : Option (List Char × Cursor) := do
  let (header, afterHeader) ← header? c
  let trailer ← afterHeader.trailer? true
  if !endsLine trailer.cursor.peek? then none
  else
    let broken := trailer.cursor.peek? = some '\n'
    let first := trailer.cursor.step
    if first.peek? = some '\t' then none
    else
      let fuel := first.rest.length + 1
      let (indent, empty, place) := match header.increment with
        | some n =>
          let indent := (max outer 0).toNat + n
          (indent, nextLine indent fuel first 0)
        | none =>
          let (deepest, rest) := firstLine fuel first 0 0
          (max deepest (max (outer + 1).toNat (if 0 < outer then 1 else 0)), rest)
      if place.rest.isEmpty then return (header.chomping.alone broken empty, place)
      else if place.column < indent ∧ outer < place.column then none
      else
        let (ls, after) := lines literal indent fuel place { empty }
        return (ls.text ++ header.chomping.tail ls indent after, after)

end MarkupTemplate.Yaml.Block
