import MarkupTemplate.Decimal.Shortest
import MarkupTemplate.Value.Basic

/-!
# Values of plain data

Texts, numbers, truth values, lists and optional data as values.
-/

namespace MarkupTemplate

/-- The parts of a 64-bit floating-point number. -/
structure Binary64 where
  /-- Whether the sign bit is set. -/
  negative : Bool
  /-- The eleven bits of the exponent. -/
  exponent : Nat
  /-- The fifty-two bits after the leading one. -/
  fraction : Nat

namespace Binary64

/-- The parts of the number with the given bit pattern. -/
def ofBits (bits : UInt64) : Binary64 :=
  let n := bits.toNat
  ⟨n / Nat.pow 2 63 = 1, n / Nat.pow 2 52 % Nat.pow 2 11, n % Nat.pow 2 52⟩

/-- The reals that round to the magnitude of a finite number other than zero. -/
def interval (b : Binary64) : Decimal.Interval :=
  if b.exponent = 0 then .ofBinary b.fraction (-1074) false
  else .ofBinary (Nat.pow 2 52 + b.fraction) (b.exponent - 1075) (b.fraction = 0 && 1 < b.exponent)

/-- The magnitude of a finite number in the fewest digits that read back, without an exponent. -/
def magnitudeText (b : Binary64) : String :=
  if b.exponent = 0 ∧ b.fraction = 0 then "0"
  else match Decimal.shortest b.interval with
    | some s => String.ofList (Decimal.trimmed 20 s).positional
    | none => ""

/-- The number's text: a minus sign stands before every negative number and negative zero. -/
def text (b : Binary64) : String :=
  if b.exponent = 2047 ∧ b.fraction ≠ 0 then "NaN"
  else (if b.negative then "-" else "") ++ (if b.exponent = 2047 then "inf" else b.magnitudeText)

end Binary64

namespace Value

/-- A floating-point number, kept as its text. -/
def ofFloat (x : Float) : Value :=
  .real (Binary64.ofBits x.toBits).text

/-- A 32-bit integer. -/
def ofInt32 (n : Int32) : Value :=
  .integer n.toInt64

/-- Data that may be missing. -/
def ofOption {α : Type u} (f : α → Value) : Option α → Value
  | none => .null
  | some a => f a

end Value

end MarkupTemplate
