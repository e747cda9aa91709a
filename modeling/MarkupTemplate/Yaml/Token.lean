import MarkupTemplate.Text
import MarkupTemplate.Yaml.Cursor

/-!
# Tokens of the data language

The marks that structure a data text, and the scalars between them. Where a collection is laid out
by indentation, its start and end are tokens too.

Anchors, tags and directives are read here: what may stand before a node, the name it gets and the
type it is said to have; and what may stand before a document.
-/

namespace MarkupTemplate.Yaml

/-- A token. The end of the text is the end of the list of tokens. -/
inductive Token where
  /-- The directive that names the version of the language. -/
  | versionDirective
  /-- The directive that declares what a tag handle stands for. -/
  | tagDirective (handle expansion : String)
  /-- The marker before a document. -/
  | documentStart
  /-- The marker after a document. -/
  | documentEnd
  /-- The start of a list laid out by indentation. -/
  | blockSequenceStart
  /-- The start of a mapping laid out by indentation. -/
  | blockMappingStart
  /-- The end of a collection laid out by indentation. -/
  | blockEnd
  /-- The start of a bracketed list. -/
  | flowSequenceStart
  /-- The end of a bracketed list. -/
  | flowSequenceEnd
  /-- The start of a braced mapping. -/
  | flowMappingStart
  /-- The end of a braced mapping. -/
  | flowMappingEnd
  /-- A dash before an item. -/
  | blockEntry
  /-- A comma. -/
  | flowEntry
  /-- What stands before a key. -/
  | key
  /-- A colon after a key. -/
  | value
  /-- A reference to an anchor. -/
  | reference (name : String)
  /-- A name for the node that follows. -/
  | anchor (name : String)
  /-- The type of the node that follows. -/
  | tag (handle suffix : String)
  /-- A scalar; `plain` if it has neither quotes nor a block header. -/
  | scalar (plain : Bool) (text : String)
  deriving DecidableEq, Repr

/-! ## Anchors -/

/-- The name after the indicator of an anchor or of a reference to one. -/
def anchor? (c : Cursor) : Option (List Char × Cursor) :=
  let name := c.step.run isAnchorChar
  if name = [] then none else some (name, c.step.advance name.length)

/-! ## URIs -/

/-- How many bytes a character takes whose first byte is `byte`. -/
def byteWidth? (byte : Nat) : Option Nat :=
  if byte < 0x80 then some 1
  else if 0xc0 ≤ byte ∧ byte < 0xe0 then some 2
  else if 0xe0 ≤ byte ∧ byte < 0xf0 then some 3
  else if 0xf0 ≤ byte ∧ byte < 0xf8 then some 4
  else none

/-- The byte of a percent sign and two hexadecimal digits. -/
def escapedByte? (c : Cursor) : Option Nat :=
  match c.rest with
  | '%' :: a :: b :: _ => Numeral.nat? 16 [a, b]
  | _ => none

/-- The further bytes of an escaped character, taken together with the earlier ones. -/
def escapedRest? : Nat → Nat → Cursor → Option (Nat × Cursor)
  | 0, code, c => some (code, c)
  | n + 1, code, c => do
    let byte ← escapedByte? c
    if 0x80 ≤ byte ∧ byte < 0xc0 then escapedRest? n (code * 256 + byte) (c.advance 3) else none

/-- An escaped character: the code point is the number that its bytes spell. -/
def escapedChar? (c : Cursor) : Option (Char × Cursor) := do
  let byte ← escapedByte? c
  let width ← byteWidth? byte
  let (code, after) ← escapedRest? (width - 1) byte (c.advance 3)
  if code.isValidChar then return (Char.ofNat code, after) else none

/-- The run of characters that satisfy `p`, with its escapes decoded, after the text `read`. -/
def uri? (p : Char → Bool) : Nat → Cursor → List Char → Option (List Char × Cursor)
  | 0, c, read => some (read.reverse, c)
  | fuel + 1, c, read =>
    match c.peek? with
    | none => some (read.reverse, c)
    | some ch =>
      if !p ch then some (read.reverse, c)
      else if ch = '%' then do
        let (e, after) ← escapedChar? c
        uri? p fuel after (e :: read)
      else uri? p fuel c.step (ch :: read)

/-! ## Tags -/

/-- A tag handle: an exclamation mark, perhaps followed by a word and a second mark. In a directive
(`declared`) the second mark is required unless the handle is a single mark. -/
def handle? (declared : Bool) (c : Cursor) : Option (List Char × Cursor) :=
  if c.peek? ≠ some '!' then none
  else
    let word := c.step.run isWordChar
    let after := c.step.advance word.length
    if after.peek? = some '!' then some ('!' :: (word ++ ['!']), after.step)
    else if declared ∧ word ≠ [] then none
    else some ('!' :: word, after)

/-- Whether a handle has a mark at both ends. -/
def isNamedHandle (handle : List Char) : Bool :=
  2 ≤ handle.length && handle.head? = some '!' && handle.getLast? = some '!'

/-- The tag here: its handle and the rest of it. A tag in angle brackets has no handle, and a
single mark is a tag of its own. -/
def tag? (inFlow : Bool) (c : Cursor) : Option (Token × Cursor) := do
  let (handle, suffix, after) ← (do
    if c.peekAt? 1 = some '<' then
      let (uri, after) ← uri? isUriChar (c.rest.length + 1) (c.advance 2) []
      if after.peek? = some '>' then return ([], uri, after.step) else none
    else
      let (handle, after) ← handle? false c
      let (suffix, after) ← uri? isTagChar (after.rest.length + 1) after []
      if isNamedHandle handle then
        if suffix = [] then none else return (handle, suffix, after)
      else
        let suffix := handle.drop 1 ++ suffix
        if suffix = [] then return ([], ['!'], after) else return (['!'], suffix, after)
    : Option (List Char × List Char × Cursor))
  if endsWord after.peek? || inFlow && startsFlow after.peek? then
    return (.tag (String.ofList handle) (String.ofList suffix), after)
  else none

/-! ## Directives -/

/-- The digits of a version number; there are at most nine. -/
def versionNumber? (c : Cursor) : Option Cursor :=
  let digits := c.run Char.isDigit
  if digits = [] ∨ 9 < digits.length then none else some (c.advance digits.length)

/-- What a declared handle stands for. -/
def expansion? (c : Cursor) : Option (List Char × Cursor) := do
  let first ← c.peek?
  if first = '!' ∨ isTagChar first then
    if first = '%' then uri? isUriChar (c.rest.length + 1) c []
    else uri? isUriChar (c.rest.length + 1) c.step [first]
  else none

/-- The directive here, up to the start of the next line, which must not be a comment. A directive
of another name declares nothing. -/
def directive? (c : Cursor) : Option (Token × Cursor) := do
  let name := c.step.run isWordChar
  let after := c.step.advance name.length
  if name = [] || !endsWord after.peek? then none
  else
    let (token, after) ← (do
      if name = "YAML".toList then
        let after ← versionNumber? (after.skip isSpace)
        if after.peek? = some '.' then return (.versionDirective, ← versionNumber? after.step)
        else none
      else if name = "TAG".toList then
        let (handle, after) ← handle? true (after.skip isSpace)
        let (expansion, after) ← expansion? (after.skip isSpace)
        if endsWord after.peek? then
          return (.tagDirective (String.ofList handle) (String.ofList expansion), after)
        else none
      else return (.tagDirective "" "", after.toLineEnd)
      : Option (Token × Cursor))
    let trailer ← after.trailer? true
    let next := trailer.cursor.step
    if endsLine trailer.cursor.peek? ∧ next.peek? ≠ some '#' then return (token, next) else none

end MarkupTemplate.Yaml
