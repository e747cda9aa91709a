import MarkupTemplate.Entries
import MarkupTemplate.Text

/-!
# Data values

The records that templates are filled from: scalars, lists, and records of key-value pairs that
keep their order. Values are totally ordered, and equality is decided by that order.

A path into a value is a dotted list of segments. Each segment is a key of a record or a place in a
list; the empty path is the value itself, and a path with a segment that leads nowhere has no value.
Where a value fills a placeholder, a scalar is its own text, a list is the texts of its items with
commas between them, and a record and the absent datum are empty.

Results:
* `compare_eq_iff`: two values compare equal exactly when they are equal.
-/

namespace MarkupTemplate

/-- A datum. -/
inductive Value where
  /-- A number kept as the text it was written with, where that is no 64-bit integer. -/
  | real (text : String)
  /-- A 64-bit integer. -/
  | integer (number : Int64)
  /-- A text. -/
  | string (text : String)
  /-- A truth value. -/
  | boolean (flag : Bool)
  /-- A list. -/
  | array (items : List Value)
  /-- A record: keys and what they hold, in order. -/
  | hash (entries : List (Value × Value))
  /-- The absent datum. -/
  | null
  deriving Inhabited, Repr

namespace Value

/-! ## Order -/

/-- The place of a value's kind among the kinds. -/
def rank : Value → Nat
  | real _ => 0
  | integer _ => 1
  | string _ => 2
  | boolean _ => 3
  | array _ => 4
  | hash _ => 5
  | null => 6

mutual

/-- Kinds first, then contents: texts by their UTF-8 bytes, which is the order of their code points,
lists and records entry by entry. -/
protected def compare : Value → Value → Ordering
  | real a, real b => Ord.compare a b
  | integer a, integer b => Ord.compare a b
  | string a, string b => Ord.compare a b
  | boolean a, boolean b => Ord.compare a b
  | array xs, array ys => compareItems xs ys
  | hash es, hash fs => compareEntries es fs
  | a, b => Ord.compare a.rank b.rank

/-- Lists in lexicographic order. -/
def compareItems : List Value → List Value → Ordering
  | [], [] => .eq
  | [], _ :: _ => .lt
  | _ :: _, [] => .gt
  | x :: xs, y :: ys => (x.compare y).then (compareItems xs ys)

/-- Entries in lexicographic order, the key of each before what it holds. -/
def compareEntries : List (Value × Value) → List (Value × Value) → Ordering
  | [], [] => .eq
  | [], _ :: _ => .lt
  | _ :: _, [] => .gt
  | (k, v) :: es, (l, w) :: fs =>
    (k.compare l).then ((v.compare w).then (compareEntries es fs))

end

instance : Ord Value := ⟨Value.compare⟩

mutual

theorem compare_self : ∀ a : Value, a.compare a = .eq
  | real _ | integer _ | string _ | boolean _ => Std.ReflOrd.compare_self
  | array xs => compareItems_self xs
  | hash es => compareEntries_self es
  | null => rfl

theorem compareItems_self : ∀ xs : List Value, compareItems xs xs = .eq
  | [] => rfl
  | x :: xs => by simp [compareItems, compare_self x, compareItems_self xs]

theorem compareEntries_self : ∀ es : List (Value × Value), compareEntries es es = .eq
  | [] => rfl
  | (k, v) :: es => by
    simp [compareEntries, compare_self k, compare_self v, compareEntries_self es]

end

mutual

theorem eq_of_compare_eq : ∀ {a b : Value}, a.compare b = .eq → a = b
  | real _, b, h => by
    cases b <;> simp_all [Value.compare, rank]
  | integer _, b, h => by
    cases b <;> simp_all [Value.compare, rank]
  | string _, b, h => by
    cases b <;> simp_all [Value.compare, rank]
  | boolean _, b, h => by
    cases b <;> simp_all [Value.compare, rank]
  | array xs, b, h => by
    cases b with
    | array ys => exact congrArg _ (eq_of_compareItems_eq h)
    | _ => simp [Value.compare, rank] at h
  | hash es, b, h => by
    cases b with
    | hash fs => exact congrArg _ (eq_of_compareEntries_eq h)
    | _ => simp [Value.compare, rank] at h
  | null, b, h => by
    cases b <;> simp_all [Value.compare, rank]

theorem eq_of_compareItems_eq : ∀ {xs ys : List Value}, compareItems xs ys = .eq → xs = ys
  | [], [], _ => rfl
  | [], _ :: _, h => by simp [compareItems] at h
  | _ :: _, [], h => by simp [compareItems] at h
  | x :: xs, y :: ys, h => by
    rw [compareItems, Ordering.then_eq_eq] at h
    rw [eq_of_compare_eq h.1, eq_of_compareItems_eq h.2]

theorem eq_of_compareEntries_eq :
    ∀ {es fs : List (Value × Value)}, compareEntries es fs = .eq → es = fs
  | [], [], _ => rfl
  | [], _ :: _, h => by simp [compareEntries] at h
  | _ :: _, [], h => by simp [compareEntries] at h
  | (k, v) :: es, (l, w) :: fs, h => by
    rw [compareEntries, Ordering.then_eq_eq, Ordering.then_eq_eq] at h
    rw [eq_of_compare_eq h.1, eq_of_compare_eq h.2.1, eq_of_compareEntries_eq h.2.2]

end

/-- The order tells apart whatever is different, and nothing else. -/
theorem compare_eq_iff {a b : Value} : a.compare b = .eq ↔ a = b :=
  ⟨eq_of_compare_eq, fun h => h ▸ compare_self a⟩

instance : DecidableEq Value := fun _ _ => decidable_of_iff _ compare_eq_iff

/-! ## Records -/

/-- The record that writing the given entries one by one leaves. -/
def ofEntries (entries : List (Value × Value)) : Value :=
  .hash (Entries.ofList entries)

/-- The record with the given texts as keys. -/
def ofPairs (pairs : List (String × Value)) : Value :=
  ofEntries (pairs.map fun p => (.string p.1, p.2))

/-- Whether the value is the absent datum. -/
def isNull : Value → Bool
  | null => true
  | _ => false

theorem isNull_iff {v : Value} : v.isNull ↔ v = null := by
  cases v <;> simp [isNull]

/-! ## Paths -/

/-- One step into a value. In a record a segment is a text key, or else the integer key that it
spells; in a list it is a place counted from zero. -/
def member? (segment : String) : Value → Option Value
  | hash entries =>
    (Entries.lookup? entries (.string segment)).or
      ((Numeral.signed? 10 segment.toList).bind fun n => Entries.lookup? entries (.integer n))
  | array items => (Numeral.unsigned? segment.toList).bind (items[·]?)
  | _ => none

/-- Follows the segments one after the other. -/
def follow? (segments : List String) (v : Value) : Option Value :=
  segments.foldlM (fun w segment => w.member? segment) v

@[simp] theorem follow?_cons (segment : String) (segments : List String) (v : Value) :
    v.follow? (segment :: segments) = (v.member? segment).bind (follow? segments) := rfl

/-- The value at the end of a dotted path; the empty path is the value itself. -/
def at? (path : String) (v : Value) : Option Value :=
  if path = "" then some v
  else v.follow? ((Text.segments path.toList).map String.ofList)

/-! ## Texts -/

/-- The text of a truth value. -/
def textOfBool : Bool → String
  | true => "true"
  | false => "false"

mutual

/-- What the value looks like in markup. -/
def text : Value → String
  | real s | string s => s
  | integer n => toString n.toInt
  | boolean b => textOfBool b
  | array items => textOfItems items
  | hash _ | null => ""

/-- The texts of a list's items with commas between them. -/
def textOfItems : List Value → String
  | [] => ""
  | [v] => v.text
  | v :: w :: items => v.text ++ "," ++ textOfItems (w :: items)

end

end Value

end MarkupTemplate
