import MarkupTemplate.Text
import MarkupTemplate.Yaml.Node

/-!
# What scalars mean

The type of a scalar: a quoted one is a text; a plain one is a number, a truth value, the absent
datum or a text by its look, unless it has a tag.
-/

namespace MarkupTemplate.Yaml

/-! ## Numbers -/

/-- An optional sign taken off. -/
def unsignedPart : List Char → List Char
  | '+' :: cs => cs
  | '-' :: cs => cs
  | cs => cs

/-- Digits with at most one point among them; at least one digit. -/
def isMantissa (cs : List Char) : Bool :=
  let fraction := (cs.dropWhile Char.isDigit).drop 1
  cs.any Char.isDigit && fraction.all Char.isDigit &&
    ((cs.dropWhile Char.isDigit).head?.all (· = '.'))

/-- An exponent: one or more digits after an optional sign. -/
def isExponent (cs : List Char) : Bool :=
  let digits := unsignedPart cs
  !digits.isEmpty && digits.all Char.isDigit

/-- A number with an optional sign, point and exponent, or one of the names of infinity and of
what is no number, in either case. -/
def isReal (cs : List Char) : Bool :=
  let body := unsignedPart cs
  let mantissa := body.takeWhile fun c => c ≠ 'e' && c ≠ 'E'
  let rest := body.drop mantissa.length
  [['i', 'n', 'f'], ['i', 'n', 'f', 'i', 'n', 'i', 't', 'y'], ['n', 'a', 'n']].contains
      (body.map Char.toLower) ||
    isMantissa mantissa && (rest.isEmpty || isExponent (rest.drop 1))

/-- The further names of infinity and of what is no number, which start with a point. -/
def specialReals : List String :=
  [".inf", ".Inf", ".INF", "+.inf", "+.Inf", "+.INF", "-.inf", "-.Inf", "-.INF", ".nan", ".NAN"]

/-- Whether a scalar is a number that is kept as its text. -/
def isFloat (text : String) : Bool :=
  specialReals.contains text || isReal text.toList

/-- The integer that a scalar spells: in base sixteen or eight after a mark, else in base ten. -/
def integer? (cs : List Char) : Option Int64 :=
  let marked := match cs with
    | '0' :: 'x' :: digits => Numeral.signed? 16 digits
    | '0' :: 'o' :: digits => Numeral.signed? 8 digits
    | '+' :: digits => Numeral.signed? 10 digits
    | _ => none
  marked.or (Numeral.signed? 10 cs)

/-! ## Scalars -/

/-- A plain scalar without a tag. -/
def Node.ofPlain (text : String) : Node :=
  match integer? text.toList with
  | some n => .integer n
  | none =>
    if text = "~" ∨ text = "null" then .null
    else if text = "true" then .boolean true
    else if text = "false" then .boolean false
    else if isFloat text then .real text
    else .string text

/-- What a tag handle stands for when it is that of the common types. -/
def commonTypes : String :=
  "tag:yaml.org,2002:"

/-- A plain scalar with the tag of a common type; one that does not fit the type is bad. -/
def Node.ofTagged (type text : String) : Node :=
  if type = "bool" then
    if text = "true" then .boolean true else if text = "false" then .boolean false else .bad
  else if type = "int" then
    match Numeral.signed? 10 text.toList with
    | some n => .integer n
    | none => .bad
  else if type = "float" then if isFloat text then .real text else .bad
  else if type = "null" then if text = "~" ∨ text = "null" then .null else .bad
  else .string text

/-- A scalar, with its tag as what the handle stands for and the rest. -/
def Node.ofScalar (plain : Bool) (tag : Option (String × String)) (text : String) : Node :=
  if !plain then .string text
  else match tag with
    | none => .ofPlain text
    | some (handle, type) => if handle = commonTypes then .ofTagged type text else .string text

/-- The node where none is written. -/
def Node.empty : Node :=
  .null

end MarkupTemplate.Yaml
