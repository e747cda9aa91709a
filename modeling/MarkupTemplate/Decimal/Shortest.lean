/-!
# Shortest decimals

A binary floating-point number stands for all reals that round to it. Among the decimals in that
interval, those with the fewest digits are found by trying the grids of one digit, two digits and
so on: the first grid that has a point in the interval has one next to the number itself.
-/

namespace MarkupTemplate.Decimal

/-- The reals that round to one number: between `low / unit` and `high / unit` around
`middle / unit`, the ends counting if `closed`. -/
structure Interval where
  /-- The lower end. -/
  low : Nat
  /-- The number itself. -/
  middle : Nat
  /-- The upper end. -/
  high : Nat
  /-- What the three are counted in. -/
  unit : Nat
  /-- Whether the ends round to the number too. -/
  closed : Bool

namespace Interval

/-- The interval of `m * 2 ^ q`. Its lower part is half as wide where the spacing of numbers
halves, below a power of two with a smaller exponent to go to (`narrow`). -/
def ofBinary (m : Nat) (q : Int) (narrow : Bool) : Interval :=
  let scale := Nat.pow 2 q.toNat
  { low := (4 * m - if narrow then 1 else 2) * scale
    middle := 4 * m * scale
    high := (4 * m + 2) * scale
    unit := 4 * Nat.pow 2 (-q).toNat
    closed := m % 2 = 0 }

/-- The same interval measured in units of `10 ^ k`. -/
def inUnits (i : Interval) (k : Int) : Interval :=
  let scale := Nat.pow 10 (-k).toNat
  { i with
    low := i.low * scale
    middle := i.middle * scale
    high := i.high * scale
    unit := i.unit * Nat.pow 10 k.toNat }

/-- Whether the whole number `d` lies in the interval. -/
def contains (i : Interval) (d : Nat) : Bool :=
  if i.closed then i.low ≤ d * i.unit && d * i.unit ≤ i.high
  else i.low < d * i.unit && d * i.unit < i.high

/-- The whole number in the interval that is next to its middle and nearest to it; of two at the
same distance the larger. -/
def candidate? (i : Interval) : Option Nat :=
  let d := i.middle / i.unit
  match i.contains d, i.contains (d + 1) with
  | true, true => if 2 * (i.middle % i.unit) < i.unit then some d else some (d + 1)
  | true, false => some d
  | false, true => some (d + 1)
  | false, false => none

end Interval

/-- How many tenfold steps lead from `n / d` to at least one; at most `fuel` are tried. -/
def stepsToOne (d : Nat) : Nat → Nat → Nat
  | 0, _ => 0
  | fuel + 1, n => if d ≤ n then 0 else stepsToOne d fuel (10 * n) + 1

/-- The exponent of the first digit of `n / d`. -/
def magnitude (n d : Nat) : Int :=
  if d ≤ n then ((Nat.toDigits 10 (n / d)).length : Int) - 1
  else -(stepsToOne d d n : Int)

/-- A decimal `digits * 10 ^ exponent`. -/
structure Scaled where
  /-- The digits as one number. -/
  digits : Nat
  /-- The power of ten that they count. -/
  exponent : Int

/-- The first of the next `grids` grids with a point in the interval, from `digits` digits on. -/
def firstHit (i : Interval) (top : Int) : (digits grids : Nat) → Option Scaled
  | _, 0 => none
  | digits, grids + 1 =>
    let k := top - digits + 1
    match (i.inUnits k).candidate? with
    | some d => some ⟨d, k⟩
    | none => firstHit i top (digits + 1) grids

/-- The shortest decimal in the interval; seventeen digits always reach one. -/
def shortest (i : Interval) : Option Scaled :=
  firstHit i (magnitude i.middle i.unit) 1 17

/-- Zeros at the end of the digits, as long as there are some, go into the exponent. -/
def trimmed (fuel : Nat) (s : Scaled) : Scaled :=
  match fuel with
  | 0 => s
  | fuel + 1 =>
    if s.digits % 10 = 0 ∧ s.digits ≠ 0 then trimmed fuel ⟨s.digits / 10, s.exponent + 1⟩ else s

/-- The decimal in positional notation, with no exponent. -/
def Scaled.positional (s : Scaled) : List Char :=
  let digits := Nat.toDigits 10 s.digits
  let places := (-s.exponent).toNat
  if places = 0 then digits ++ List.replicate s.exponent.toNat '0'
  else if places < digits.length then
    digits.take (digits.length - places) ++ '.' :: digits.drop (digits.length - places)
  else '0' :: '.' :: (List.replicate (places - digits.length) '0' ++ digits)

end MarkupTemplate.Decimal
