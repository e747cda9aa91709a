import MarkupTemplate.Text
import MarkupTemplate.Yaml.Cursor

/-!
# Quoted scalars

Scalars in single quotes, where a quote is written twice, and in double quotes, where a backslash
opens an escape. Line breaks fold as in plain scalars; a backslash before a break joins the lines.
-/

namespace MarkupTemplate.Yaml.Quoted

/-- The character that one letter after a backslash stands for. -/
def simpleEscape? (c : Char) : Option Char :=
  match c with
  | '0' => some '\x00'
  | 'a' => some '\x07'
  | 'b' => some '\x08'
  | 't' => some '\t'
  | '\t' => some '\t'
  | 'n' => some '\n'
  | 'v' => some '\x0b'
  | 'f' => some '\x0c'
  | 'r' => some '\r'
  | 'e' => some '\x1b'
  | ' ' => some ' '
  | '"' => some '"'
  | '/' => some '/'
  | '\\' => some '\\'
  | 'N' => some '\u0085'
  | '_' => some '\u00a0'
  | 'L' => some '\u2028'
  | 'P' => some '\u2029'
  | _ => none

/-- How many hexadecimal digits follow the letter of a numeric escape. -/
def numericEscape? (c : Char) : Option Nat :=
  match c with
  | 'x' => some 2
  | 'u' => some 4
  | 'U' => some 8
  | _ => none

/-- The character with the code point `n`, unless `n` is a surrogate or too large. -/
def char? (n : Nat) : Option Char :=
  if h : n.isValidChar then some (Char.ofNatAux n h) else none

/-- The escape after a backslash: its character and its length. -/
def escape? : List Char → Option (Char × Nat)
  | [] => none
  | c :: cs =>
    match simpleEscape? c with
    | some e => some (e, 1)
    | none => do
      let width ← numericEscape? c
      let digits := cs.take width
      if digits.length = width then
        return (← char? (← Numeral.nat? 16 digits), width + 1)
      else none

/-- A run of text up to a blank, a break or the closing quote. -/
structure Chunk where
  /-- Its characters, last one first. -/
  text : List Char := []
  /-- Whether it ends in an escaped line break. -/
  joined : Bool := false

/-- The run of text here. -/
def chunk? (single : Bool) : Nat → Cursor → List Char → Option (Chunk × Cursor)
  | 0, c, text => some ({ text }, c)
  | fuel + 1, c, text =>
    match c.rest with
    | [] => some ({ text }, c)
    | ch :: cs =>
      if endsWord (some ch) then some ({ text }, c)
      else if single then
        if ch = '\'' then
          if cs.head? = some '\'' then chunk? single fuel (c.advance 2) ('\'' :: text)
          else some ({ text }, c)
        else chunk? single fuel c.step (ch :: text)
      else if ch = '"' then some ({ text }, c)
      else if ch = '\\' then
        if cs.head? = some '\n' then some ({ text, joined := true }, c.advance 2)
        else do
          let (e, length) ← escape? cs
          chunk? single fuel (c.advance (length + 1)) (e :: text)
      else chunk? single fuel c.step (ch :: text)

/-- The blanks and breaks between two runs of text. -/
structure Gap where
  /-- Whether the gap has reached another line. -/
  broken : Bool
  /-- The blanks of a gap within one line, last one first. -/
  blanks : List Char := []
  /-- Whether a break is to be read as a space. -/
  folded : Bool := false
  /-- The breaks after that one. -/
  extra : Nat := 0

/-- What a gap leaves in the scalar. -/
def Gap.text (g : Gap) : List Char :=
  if g.broken then
    if g.folded && g.extra = 0 then [' '] else List.replicate g.extra '\n'
  else g.blanks.reverse

/-- The gap here. A tab may not indent a line to the left of the column `indent`. -/
def gap? (indent : Int) : Nat → Cursor → Gap → Option (Gap × Cursor)
  | 0, c, g => some (g, c)
  | fuel + 1, c, g =>
    match c.peek? with
    | none => some (g, c)
    | some ch =>
      if ch = '\n' then
        gap? indent fuel c.step
          (if g.broken then { g with extra := g.extra + 1 }
            else { g with broken := true, blanks := [], folded := true })
      else if !isSpace ch then some (g, c)
      else if !g.broken then gap? indent fuel c.step { g with blanks := ch :: g.blanks }
      else if ch = '\t' ∧ c.column < indent then none
      else gap? indent fuel c.step g

/-- The scalar from here to its closing quote, after the text `read`. -/
def from? (single : Bool) (indent : Int) : Nat → Cursor → List Char → Option (List Char × Cursor)
  | 0, _, _ => none
  | fuel + 1, c, read =>
    if c.atDocumentMark || c.rest.isEmpty || c.column < indent then none
    else do
      let (run, after) ← chunk? single (c.rest.length + 1) c []
      let read := read ++ run.text.reverse
      if after.peek? = some (if single then '\'' else '"') then
        return (read, after.step)
      let (g, later) ← gap? indent (after.rest.length + 1) after { broken := run.joined }
      from? single indent fuel later (read ++ g.text)

/-- Whether `c` may follow a quoted scalar on its line. -/
def mayFollow (inFlow sameLine : Bool) : Option Char → Bool
  | none => true
  | some c =>
    c = '\n' || inFlow && (c = ',' || c = '}' || c = ']') || c = ':' && (inFlow || sameLine)

/-- The quoted scalar whose opening quote is here. -/
def read? (single : Bool) (indent : Int) (inFlow : Bool) (c : Cursor) :
    Option (List Char × Cursor) := do
  let (text, after) ← from? single indent (c.rest.length + 1) c.step []
  let trailer ← after.trailer? true
  if mayFollow inFlow (c.line = trailer.cursor.line) trailer.cursor.peek? then
    return (text, trailer.cursor)
  else none

end MarkupTemplate.Yaml.Quoted
