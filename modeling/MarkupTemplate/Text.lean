import MarkupTemplate.Text.Hidden

/-!
# Texts

A text is read as a list of characters. It is cut at marks and at dots, freed from blanks, read as a
numeral, and shown between quotes in messages.

The quote, the backslash and the usual control characters are shown with a backslash, and hidden
characters by their code point. A numeral is a whole number: digits of a base up to sixteen, with an
optional sign, and only within the range of a 64-bit word.

Results:
* `eq_of_cut?`, `length_of_cut?`: the parts of a text before and after a mark.
* `segments_ne_nil`, `intercalate_segments`: the parts of a text between its dots.
* `Numeral.unsigned?_lt`: what is read without a minus sign fits an unsigned 64-bit word.
-/

namespace MarkupTemplate

namespace Text

/-! ## Blanks -/

/-- The code points with the property `White_Space`, as inclusive ranges in increasing order. -/
def blankRanges : List (Nat × Nat) :=
  [(0x9, 0xd), (0x20, 0x20), (0x85, 0x85), (0xa0, 0xa0), (0x1680, 0x1680), (0x2000, 0x200a),
    (0x2028, 0x2029), (0x202f, 0x202f), (0x205f, 0x205f), (0x3000, 0x3000)]

/-- Whether `c` has the property `White_Space`. -/
def isBlank (c : Char) : Bool :=
  blankRanges.any fun r => r.1 ≤ c.toNat && c.toNat ≤ r.2

/-- The text without the blanks at its end. -/
def dropTrailingBlanks (cs : List Char) : List Char :=
  (cs.reverse.dropWhile isBlank).reverse

/-! ## Marks -/

/-- What comes before the first `mark` in a text, and what comes after it. -/
def cut? (mark : List Char) : List Char → Option (List Char × List Char)
  | [] => if mark = [] then some ([], []) else none
  | c :: cs =>
    if mark.isPrefixOf (c :: cs) then some ([], (c :: cs).drop mark.length)
    else (cut? mark cs).map fun r => (c :: r.1, r.2)

theorem eq_of_cut? {mark cs before after : List Char} (h : cut? mark cs = some (before, after)) :
    cs = before ++ mark ++ after := by
  induction cs generalizing before with
  | nil =>
    rw [cut?] at h
    split at h
    · next hm => simp_all
    · cases h
  | cons c cs ih =>
    rw [cut?] at h
    split at h
    · next hp =>
      obtain ⟨rest, hr⟩ := List.isPrefixOf_iff_prefix.1 hp
      obtain ⟨rfl, rfl⟩ := Prod.mk.inj (Option.some.inj h)
      rw [← hr]
      simp
    · obtain ⟨⟨b, a⟩, hb, he⟩ := Option.map_eq_some_iff.1 h
      obtain ⟨rfl, rfl⟩ := Prod.mk.inj he
      rw [ih hb]
      simp

theorem length_of_cut? {mark cs before after : List Char}
    (h : cut? mark cs = some (before, after)) :
    before.length + mark.length + after.length = cs.length := by
  rw [eq_of_cut? h]
  simp [Nat.add_assoc]

/-! ## Dots -/

/-- The parts of a text between its dots; a text without a dot is its own only part. -/
def segments : List Char → List (List Char)
  | [] => [[]]
  | c :: cs =>
    if c = '.' then [] :: segments cs
    else match segments cs with
      | [] => [[c]]
      | s :: rest => (c :: s) :: rest

theorem segments_ne_nil (cs : List Char) : segments cs ≠ [] := by
  cases cs with
  | nil => simp [segments]
  | cons c cs =>
    rw [segments]
    split
    · simp
    · split <;> simp

theorem intercalate_segments (cs : List Char) : ['.'].intercalate (segments cs) = cs := by
  induction cs with
  | nil => rfl
  | cons c cs ih =>
    have h := segments_ne_nil cs
    rw [segments]
    split
    · subst_vars
      obtain ⟨s, rest, hs⟩ := List.exists_cons_of_ne_nil h
      rw [hs] at ih ⊢
      simp [List.intercalate_cons_cons, ih]
    · obtain ⟨s, rest, hs⟩ := List.exists_cons_of_ne_nil h
      rw [hs] at ih ⊢
      cases rest with
      | nil => simpa using ih
      | cons t rest =>
        rw [List.intercalate_cons_cons] at ih ⊢
        simp [← ih]

/-! ## Quotes -/

/-- A character inside quotes. -/
def shown (c : Char) : List Char :=
  match c with
  | '\x00' => ['\\', '0']
  | '\t' => ['\\', 't']
  | '\r' => ['\\', 'r']
  | '\n' => ['\\', 'n']
  | '"' => ['\\', '"']
  | '\\' => ['\\', '\\']
  | _ =>
    if isHidden c then '\\' :: 'u' :: '{' :: (Nat.toDigits 16 c.toNat ++ ['}'])
    else [c]

/-- A character in quotes. -/
def quoted (c : Char) : String :=
  String.ofList ('"' :: (shown c ++ ['"']))

/-- A text in quotes. -/
def quotedText (s : String) : String :=
  String.ofList ('"' :: (s.toList.flatMap shown ++ ['"']))

end Text

/-! ## Numerals -/

namespace Numeral

/-- The value of `c` as a digit of base `base`; letters count from ten in either case. -/
def digit? (base : Nat) (c : Char) : Option Nat :=
  let value :=
    if c.isDigit then c.toNat - '0'.toNat
    else if 'a' ≤ c ∧ c ≤ 'z' then c.toNat - 'a'.toNat + 10
    else if 'A' ≤ c ∧ c ≤ 'Z' then c.toNat - 'A'.toNat + 10
    else base
  if value < base then some value else none

/-- The number that the digits `cs` continue, when `acc` has been read before them. -/
def accumulate? (base : Nat) (acc : Nat) : List Char → Option Nat
  | [] => some acc
  | c :: cs => do accumulate? base (acc * base + (← digit? base c)) cs

/-- The number written with one or more digits of `base`. -/
def nat? (base : Nat) : List Char → Option Nat
  | [] => none
  | cs => accumulate? base 0 cs

/-- A decimal number that fits an unsigned 64-bit word; a plus sign may stand before it. -/
def unsigned? (cs : List Char) : Option Nat :=
  let digits := match cs with
    | '+' :: rest => rest
    | _ => cs
  (nat? 10 digits).filter (· < UInt64.size)

theorem unsigned?_lt {cs : List Char} {n : Nat} (h : unsigned? cs = some n) : n < UInt64.size := by
  simpa using (Option.filter_eq_some_iff.1 h).2

/-- A number of `base` in the range of a signed 64-bit word, with an optional sign before it. -/
def signed? (base : Nat) (cs : List Char) : Option Int64 :=
  let number : Option Int := match cs with
    | '-' :: rest => (nat? base rest).map fun n => -(n : Int)
    | '+' :: rest => (nat? base rest).map Int.ofNat
    | _ => (nat? base cs).map Int.ofNat
  (number.filter fun n => Int64.minValue.toInt ≤ n ∧ n ≤ Int64.maxValue.toInt).map Int64.ofInt

end Numeral

end MarkupTemplate
