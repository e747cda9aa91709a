import MarkupTemplate.Placeholder

/-!
# Gaps

The gaps between the fragments of a call site are numbered from zero. Markers hold their places
while the fragments are read as one text: a marker is a comment that names its gap. Each gap has to
turn up exactly once.
-/

namespace MarkupTemplate.Gap

open Text

/-! ## Markers -/

/-- What the comment of a marker starts with. -/
def markerText : List Char :=
  ['s', 't', 'a', 'm', 'p', '-', 'm', 'a', 'r', 'k', 'e', 'r', ':']

/-- What a marker starts with. -/
def markerOpen : List Char :=
  '<' :: '!' :: '-' :: '-' :: markerText

/-- What a marker ends with. -/
def markerClose : List Char :=
  ['-', '-', '>']

/-- The marker of gap `k`. -/
def marker (k : Nat) : List Char :=
  markerOpen ++ Nat.toDigits 10 k ++ markerClose

/-- The gap that a comment names, if it is a marker. -/
def ofComment? (text : String) : Option Nat :=
  let cs := text.toList
  if markerText.isPrefixOf cs then Numeral.unsigned? (cs.drop markerText.length) else none

/-- The number of a gap and the text after its marker, if the text `cs` follows the start of a
marker. -/
def number? (cs : List Char) : Option (List Char × List Char) :=
  (cut? markerClose cs).filter fun r => !r.1.isEmpty && r.1.all Char.isDigit

/-- The tokens of an attribute value: its markers, read from the left, and the text around them. At
a marker without a number the rest is static text. -/
def splitFrom (cs : List Char) : List Token :=
  match h : cut? markerOpen cs with
  | none => static cs
  | some (before, after) =>
    match h' : number? after with
    | none => static cs
    | some (digits, rest) =>
      have : rest.length < cs.length := by
        have h₁ := length_of_cut? h
        have h₂ := length_of_cut? (Option.filter_eq_some_iff.1 h').1
        simp only [markerOpen, List.length_cons] at h₁
        omega
      static before ++ .expression (String.ofList digits) :: splitFrom rest
termination_by cs.length
where
  /-- The token of static text; there is none where the text is empty. -/
  static (cs : List Char) : List Token :=
    if cs = [] then [] else [.static (String.ofList cs)]

/-- The tokens of an attribute value. -/
def split (value : String) : List Token :=
  splitFrom value.toList

/-! ## Taking gaps -/

/-- Why the gaps of a call site are not in order. -/
inductive Disorder where
  /-- A marker has a number that is no gap's. -/
  | tooLarge (digits : String)
  /-- A gap turns up twice. -/
  | repeated (gap : Nat)
  /-- A marker names a gap that the call site does not have. -/
  | unknown (gap : Nat)
  /-- A gap turns up nowhere that data can go. -/
  | misplaced (gap : Nat)
  deriving DecidableEq, Repr

/-- The wording of why gaps are not in order. -/
def Disorder.message : Disorder → String
  | tooLarge digits =>
    s!"bad marker index {quotedText digits}: number too large to fit in target type"
  | repeated gap => s!"gap {gap} appears more than once"
  | unknown gap => s!"gap {gap} does not exist"
  | misplaced gap => s!"gap {gap} is not in a text or attribute value position"

/-- The gap that a marker's number names. -/
def ofNumber (digits : String) : Except Disorder Nat :=
  match Numeral.unsigned? digits.toList with
  | some gap => .ok gap
  | none => .error (.tooLarge digits)

/-- Takes the gaps with the given numbers one after the other: each of the `count` gaps may be
taken once. The gaps that are taken at the end come first to last. -/
def occupy (count : Nat) : (taken : List Nat) → List String → Except Disorder (List Nat)
  | taken, [] => .ok taken
  | taken, digits :: rest => do
    let gap ← ofNumber digits
    if count ≤ gap then throw (.unknown gap)
    else if gap ∈ taken then throw (.repeated gap)
    else occupy count (taken ++ [gap]) rest

/-- Takes the gaps with the given numbers; none of the `count` gaps may be left. -/
def occupyAll (count : Nat) (numbers : List String) : Except Disorder Unit := do
  let taken ← occupy count [] numbers
  match (List.range count).find? (· ∉ taken) with
  | some gap => throw (.misplaced gap)
  | none => return ()

end MarkupTemplate.Gap
