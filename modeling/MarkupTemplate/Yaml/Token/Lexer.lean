import MarkupTemplate.Yaml.Scalar.Block
import MarkupTemplate.Yaml.Scalar.Plain
import MarkupTemplate.Yaml.Scalar.Quoted
import MarkupTemplate.Yaml.Token

/-!
# Tokens of a data text

Splits a text into tokens. A key is known for one only when its colon is reached. So wherever a
key may start, a slot is left among the tokens; the colon fills it, and slots that stay empty
vanish at the end.
-/

namespace MarkupTemplate.Yaml

/-- What has been read: a token, or the slot of a given number. -/
inductive Lexeme where
  /-- A token. -/
  | token (t : Token)
  /-- A place where a key may have started. -/
  | slot (number : Nat)

/-- The tokens, with each slot replaced by what fills it. -/
def Lexeme.fill (filled : List (Nat × List Token)) (ls : List Lexeme) : List Token :=
  ls.flatMap fun
    | .token t => [t]
    | .slot n => (filled.lookup n).getD []

/-- A level of indentation. -/
structure Level where
  /-- The column of the level around it. -/
  outer : Int
  /-- Whether a collection was opened at it. -/
  opened : Bool

/-- A place where a key may have started. -/
structure Candidate where
  /-- The number of its slot. -/
  slot : Nat
  /-- Whether nothing but a key may stand there. -/
  required : Bool
  /-- Where it is. -/
  line : Nat
  /-- Where it is on its line. -/
  column : Nat
  /-- Where it is in the text. -/
  index : Nat

/-- What has been read of a text, and what it says about the rest. -/
structure Lexer where
  /-- Where the reading stands. -/
  cursor : Cursor
  /-- What has been read, last first. -/
  lexemes : List Lexeme := []
  /-- How many slots there are. -/
  slots : Nat := 0
  /-- What fills the slots. -/
  filled : List (Nat × List Token) := []
  /-- Whether a key may start here without a mark of its own. -/
  keyAllowed : Bool := true
  /-- The last possible start of a key at each depth of flow collections, innermost first. -/
  candidates : List (Option Candidate) := [none]
  /-- The column of the innermost level; minus one outside of all. -/
  indent : Int := -1
  /-- The levels of indentation, innermost first. -/
  levels : List Level := []
  /-- How many flow collections are open. -/
  depth : Nat := 0
  /-- Where a colon may stand without a blank after it. -/
  adjacentAt : Nat := 0
  /-- Whether a key in a flow collection finds its mapping opened, by a brace or by a mark. -/
  mappingOpen : Bool := false
  /-- Whether the last colon opened a mapping of one pair, without braces of its own, and nothing
  has ended it since. -/
  pairOpen : Bool := false

namespace Lexer

/-! ## Elementary steps -/

/-- Whether the place is inside a flow collection. -/
def inFlow (l : Lexer) : Bool :=
  0 < l.depth

/-- Adds a token. -/
def emit (l : Lexer) (t : Token) : Lexer :=
  { l with lexemes := .token t :: l.lexemes }

/-- Goes on to another place. -/
def goTo (l : Lexer) (c : Cursor) : Lexer :=
  { l with cursor := c }

/-- Keys may start from here on. -/
def allowKey (l : Lexer) : Lexer :=
  { l with keyAllowed := true }

/-- No key may start here. -/
def forbidKey (l : Lexer) : Lexer :=
  { l with keyAllowed := false }

/-- Skips blanks and a comment on this line. -/
def pastTrailer? (l : Lexer) : Option Lexer := do
  return l.goTo (← l.cursor.trailer? true).cursor

/-- Puts down a slot if a key may start here. -/
def markKey (l : Lexer) : Lexer :=
  if l.keyAllowed then
    let opened := l.levels.head?.any Level.opened
    let candidate : Candidate :=
      { slot := l.slots
        required := !l.inFlow && l.indent = l.cursor.column && opened
        line := l.cursor.line
        column := l.cursor.column
        index := l.cursor.index }
    { l with
      lexemes := .slot l.slots :: l.lexemes
      slots := l.slots + 1
      candidates := some candidate :: l.candidates.tail }
  else l

/-- Gives up the innermost possible start of a key, which must not be a required one. -/
def dropKey? (l : Lexer) : Option Lexer :=
  if l.candidates.head?.join.any Candidate.required then none
  else some { l with candidates := none :: l.candidates.tail }

/-- Outside flow collections a key without a mark of its own fits on one line and in 1024
characters. -/
def dropStaleKey? (l : Lexer) : Option Lexer :=
  match l.candidates.head?.join with
  | some k =>
    if !l.inFlow && (k.line < l.cursor.line || k.index + 1024 < l.cursor.index) then l.dropKey?
    else some l
  | none => some l

/-! ## Indentation -/

/-- Forgets the innermost level if no collection was opened at it and it reaches to `column`. -/
def dropInnermostUnopened (l : Lexer) (column : Nat) : Lexer :=
  match l.levels with
  | ⟨outer, false⟩ :: levels =>
    if l.indent ≤ (column : Int) then { l with indent := outer, levels } else l
  | _ => l

/-- Opens a level at `column` if that is to the right of the innermost one. -/
def openLevel (l : Lexer) (column : Nat) (opening : Lexer → Lexer) : Lexer :=
  if l.inFlow then l
  else
    let l := l.dropInnermostUnopened column
    if l.indent < (column : Int) then
      opening { l with indent := column, levels := ⟨l.indent, true⟩ :: l.levels }
    else l

/-- Closes the levels to the right of `column`. -/
def closeLevels (l : Lexer) (column : Int) : Lexer :=
  if l.inFlow then l else go l.levels l
where
  /-- Closes levels from the innermost one on. -/
  go (levels : List Level) (l : Lexer) : Lexer :=
    match levels with
    | [] => l
    | level :: levels =>
      if column < l.indent then
        let l := { l with indent := level.outer, levels }
        go levels (if level.opened then l.emit .blockEnd else l)
      else l

/-- What belongs to the item that starts here stands at least one column to the right. -/
def indentItem (l : Lexer) : Lexer :=
  if !l.inFlow && l.levels.head?.any Level.opened then
    { l with indent := l.indent + 1, levels := ⟨l.indent, false⟩ :: l.levels }
  else l

/-- Forgets the levels at which no collection was opened. -/
def dropUnopened (l : Lexer) : Lexer :=
  go l.levels l
where
  /-- Forgets levels from the innermost one on. -/
  go (levels : List Level) (l : Lexer) : Lexer :=
    match levels with
    | ⟨outer, false⟩ :: levels => go levels { l with indent := outer, levels }
    | _ => l

/-! ## Between tokens -/

/-- Skips blanks, breaks and comments before a token. A tab may not indent a block. -/
def toNext? : Nat → Lexer → Option Lexer
  | 0, l => some l
  | fuel + 1, l =>
    match l.cursor.peek? with
    | some ch =>
      if ch = '\t' ∧ l.levels ≠ [] ∧ l.cursor.fresh ∧ l.cursor.column < l.indent then do
        let l ← l.pastTrailer?
        if endsLine l.cursor.peek? then toNext? fuel l else none
      else if isSpace ch then toNext? fuel (l.goTo l.cursor.step)
      else if ch = '\n' then
        let l := l.goTo l.cursor.step
        toNext? fuel (if l.inFlow then l else l.allowKey)
      else if ch = '#' then toNext? fuel (l.goTo l.cursor.toLineEnd)
      else some l
    | none => some l

/-- Skips what lies between two tokens. -/
def toNextToken? (l : Lexer) : Option Lexer :=
  toNext? (l.cursor.rest.length + 1) l

/-- Skips spaces, breaks and comments after the mark of a key; `skipped` says whether a space or a
break was among them, as one has to be. -/
def afterKeyMark? : Nat → Bool → Lexer → Option Lexer
  | 0, _, l => some l
  | fuel + 1, skipped, l =>
    match l.cursor.peek? with
    | some ch =>
      if ch = ' ' then afterKeyMark? fuel true (l.goTo l.cursor.step)
      else if ch = '\n' then
        let l := l.goTo l.cursor.step
        afterKeyMark? fuel true (if l.inFlow then l else l.allowKey)
      else if ch = '#' then afterKeyMark? fuel skipped (l.goTo l.cursor.toLineEnd)
      else if skipped then some l else none
    | none => if skipped then some l else none

/-! ## Tokens -/

/-- Ends the mapping of one pair, if one is open. Pairs do not nest: the first comma or closing mark
after a pair's colon ends it, however deep that mark stands. -/
def closePair (l : Lexer) : Lexer :=
  if l.pairOpen then { l with mappingOpen := false, pairOpen := false }.emit .flowMappingEnd else l

/-- A marker between documents, or a directive: nothing of the document before it stays open. -/
def endDocument? (l : Lexer) : Option Lexer := do
  return (← (l.closeLevels (-1)).dropKey?).forbidKey

/-- A directive. -/
def directive? (l : Lexer) : Option Lexer := do
  let l ← l.endDocument?
  let (token, after) ← Yaml.directive? l.cursor
  return (l.goTo after).emit token

/-- The marker before a document. -/
def documentStart? (l : Lexer) : Option Lexer := do
  let l ← l.endDocument?
  return (l.goTo (l.cursor.advance 3)).emit .documentStart

/-- The marker after a document, with nothing but a comment after it. -/
def documentEnd? (l : Lexer) : Option Lexer := do
  let l ← l.endDocument?
  let l ← ((l.goTo (l.cursor.advance 3)).emit .documentEnd).pastTrailer?
  if endsLine l.cursor.peek? then return l else none

/-- The bracket or brace that opens a flow collection; at most 255 are open at once. -/
def openFlow? (l : Lexer) (sequence : Bool) : Option Lexer :=
  let l := l.markKey.indentItem
  if 255 ≤ l.depth then none
  else
    let l := { l with
      depth := l.depth + 1
      candidates := none :: l.candidates
      cursor := l.cursor.step
      keyAllowed := true
      mappingOpen := l.mappingOpen || !sequence }
    (l.emit (if sequence then .flowSequenceStart else .flowMappingStart)).pastTrailer?

/-- The bracket or brace that closes a flow collection. -/
def closeFlow? (l : Lexer) (sequence : Bool) : Option Lexer := do
  let l ← l.dropKey?
  let l := if l.inFlow then { l with depth := l.depth - 1, candidates := l.candidates.tail } else l
  let l := l.forbidKey.closePair
  let l ← (l.goTo l.cursor.step).pastTrailer?
  let l := if l.inFlow then { l with adjacentAt := l.cursor.index } else l
  return l.emit (if sequence then .flowSequenceEnd else .flowMappingEnd)

/-- The comma between the entries of a flow collection. -/
def flowEntry? (l : Lexer) : Option Lexer := do
  let l := (← l.dropKey?).allowKey.closePair
  return (← (l.goTo l.cursor.step).pastTrailer?).emit .flowEntry

/-- The dash before an item. -/
def blockEntry? (l : Lexer) : Option Lexer := do
  if l.inFlow || !l.keyAllowed then none
  else
    let column := l.cursor.column
    let l := (l.goTo l.cursor.step).openLevel column (emit · .blockSequenceStart)
    let trailer ← l.cursor.trailer? true
    if trailer.tab && trailer.cursor.peek? = some '-' && endsWord (trailer.cursor.peekAt? 1) then
      none
    else
      let l := l.goTo trailer.cursor
      let next := l.cursor.peek?
      let l := if next = some '\n' || startsFlow next then l.indentItem else l
      return (← l.dropKey?).allowKey.emit .blockEntry

/-- The mark of a key that is no plain one. -/
def explicitKey? (l : Lexer) : Option Lexer := do
  if !l.inFlow && !l.keyAllowed then none
  else
    let l := if l.inFlow then { l with mappingOpen := true }
      else l.openLevel l.cursor.column (emit · .blockMappingStart)
    let l ← l.dropKey?
    let l := { l with keyAllowed := !l.inFlow, cursor := l.cursor.step }
    let l ← afterKeyMark? (l.cursor.rest.length + 1) false l
    if l.cursor.peek? = some '\t' then none else return l.emit .key

/-- The colon after a key. If a key may have started before it, that slot is filled. -/
def value? (l : Lexer) : Option Lexer := do
  let start := l.cursor
  let pair := l.inFlow && !l.mappingOpen
  let l := { l with cursor := start.step, pairOpen := pair }
  let l ← (do
    if l.cursor.peek? = some '\t' then
      let trailer ← l.cursor.trailer? true
      if !trailer.space && trailer.cursor.peek?.any isWordChar then none
      else return l.goTo trailer.cursor
    else return l
    : Option Lexer)
  match l.candidates.head?.join with
  | some k =>
    if pair ∧ k.line < start.line then none
    else
      let filling := if pair then [Token.flowMappingStart, .key] else [.key]
      let l := { l with filled := (k.slot, filling) :: l.filled }
      let l := l.openLevel k.column fun l =>
        { l with filled := (k.slot, .blockMappingStart :: filling) :: l.filled }
      let l := { l.indentItem with candidates := none :: l.candidates.tail }
      return l.forbidKey.emit .value
  | none =>
    let l := if pair then l.emit .flowMappingStart else l
    if !l.inFlow && !l.keyAllowed then none
    else
      let l := (l.openLevel start.column (emit · .blockMappingStart)).indentItem
      return { l with keyAllowed := !l.inFlow }.emit .value

/-- A reference to an anchor, or an anchor. -/
def anchor? (l : Lexer) (token : String → Token) : Option Lexer := do
  let l := l.markKey.forbidKey
  let (name, after) ← Yaml.anchor? l.cursor
  return (l.goTo after).emit (token (String.ofList name))

/-- A tag. -/
def tag? (l : Lexer) : Option Lexer := do
  let l := l.markKey.forbidKey
  let (token, after) ← Yaml.tag? l.inFlow l.cursor
  return (l.goTo after).emit token

/-- A block scalar. -/
def block? (l : Lexer) (literal : Bool) : Option Lexer := do
  let l := l.markKey.allowKey.dropUnopened
  let (text, after) ← Block.read? literal l.indent l.cursor.step
  return (l.goTo after).emit (.scalar false (String.ofList text))

/-- A quoted scalar. -/
def quoted? (l : Lexer) (single : Bool) : Option Lexer := do
  let l := l.markKey.forbidKey
  let (text, after) ← Quoted.read? single l.indent l.inFlow l.cursor
  let l ← (l.goTo after).toNextToken?
  return { l with adjacentAt := l.cursor.index }.emit (.scalar false (String.ofList text))

/-- A plain scalar. After one that reaches over the end of its line a key may start. -/
def plain? (l : Lexer) : Option Lexer := do
  let l := l.markKey.forbidKey.dropUnopened
  let (text, after) ← Plain.read? (l.indent + 1) l.inFlow l.cursor
  let l := (l.goTo after).emit (.scalar true (String.ofList text))
  return if after.fresh then l.allowKey else l

/-- The token that starts with `ch`. -/
def token? (l : Lexer) (ch : Char) : Option Lexer :=
  let next := l.cursor.peekAt? 1
  if l.cursor.column = 0 ∧ ch = '%' then l.directive?
  else if l.cursor.column = 0 ∧ l.cursor.atTriple '-' then l.documentStart?
  else if l.cursor.column = 0 ∧ l.cursor.atTriple '.' then l.documentEnd?
  else if l.cursor.column < l.indent then none
  else match ch with
    | '[' => l.openFlow? true
    | '{' => l.openFlow? false
    | ']' => l.closeFlow? true
    | '}' => l.closeFlow? false
    | ',' => l.flowEntry?
    | '*' => l.anchor? .reference
    | '&' => l.anchor? .anchor
    | '!' => l.tag?
    | '\'' => l.quoted? true
    | '"' => l.quoted? false
    | '@' => none
    | '\u0060' => none
    | '%' => none
    | _ =>
      if ch = '-' ∧ endsWord next then l.blockEntry?
      else if ch = '?' ∧ endsWord next then l.explicitKey?
      else if ch = ':' ∧ (endsWord next ∨
          l.inFlow ∧ (startsFlow next ∨ l.cursor.index = l.adjacentAt)) then
        l.value?
      else if ch = '|' ∧ !l.inFlow then l.block? true
      else if ch = '>' ∧ !l.inFlow then l.block? false
      else l.plain?

/-- The tokens of the whole text, once it has been read to its end. -/
def finish? (l : Lexer) : Option (List Token) :=
  if l.candidates.any (·.any Candidate.required) then none
  else
    let l := l.closeLevels (-1)
    some (Lexeme.fill l.filled l.lexemes.reverse)

/-- Reads tokens up to the end of the text; each takes at least one character. -/
def tokens? : Nat → Lexer → Option (List Token)
  | 0, _ => none
  | fuel + 1, l => do
    let l ← (← l.toNextToken?).dropStaleKey?
    let l := l.closeLevels l.cursor.column
    match l.cursor.peek? with
    | none => l.finish?
    | some ch => tokens? fuel (← l.token? ch)

end Lexer

/-- The tokens of a data text, if it is well formed. -/
def tokens? (text : String) : Option (List Token) :=
  let cs := unified text.toList
  Lexer.tokens? (cs.length + 1) { cursor := .start cs }

end MarkupTemplate.Yaml
