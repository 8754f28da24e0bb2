import Calculator.Number.Double
import Calculator.Text

/-!
# Decimal fractions

The non-negative numbers with finitely many decimal places: how they are written, how they are read,
and which double is nearest to one. Writing gives one digit at least before the point, and no point
without places.
-/

namespace Calculator

-- Powers are those of `Nat` itself, whatever is imported.
attribute [local instance (high)] instPowNat

/-- The number `coefficient / 10^places`. -/
structure Decimal where
  /-- The digits without the point. -/
  coefficient : Nat
  /-- The number of digits after the point. -/
  places : Nat
  deriving DecidableEq, Repr

namespace Decimal

/-- The bits of the double magnitude nearest to a decimal. -/
def bits (d : Decimal) : Nat := Double.nearestBits d.coefficient (10 ^ d.places)

/-- The double nearest to a decimal, ties to even. -/
def toFloat (d : Decimal) : Float := Double.nearest false d.coefficient (10 ^ d.places)

/-- The number `coefficient / 10^places` without zeros at the end of its places. -/
def reduced : (places coefficient : Nat) → Decimal
  | 0, coefficient => ⟨coefficient, 0⟩
  | places + 1, coefficient =>
    if coefficient % 10 = 0 then reduced places (coefficient / 10)
    else ⟨coefficient, places + 1⟩

/-- The digits of a decimal, with a point before its places. -/
def text (d : Decimal) : Text :=
  let digits := Nat.toDigits 10 d.coefficient
  let padded := List.replicate (d.places + 1 - digits.length) '0' ++ digits
  let whole := padded.length - d.places
  padded.take whole ++ if d.places = 0 then [] else '.' :: padded.drop whole

/-- Reads digits with at most one point among them or at either end, and at least one digit. -/
def parse? (s : Text) : Option Decimal :=
  let whole := s.takeWhile Char.isDigit
  match s.dropWhile Char.isDigit with
  | [] => if whole.isEmpty then none else some ⟨Nat.ofDigitChars 10 whole 0, 0⟩
  | '.' :: fraction =>
    if fraction.all Char.isDigit && !(whole.isEmpty && fraction.isEmpty) then
      some ⟨Nat.ofDigitChars 10 (whole ++ fraction) 0, fraction.length⟩
    else none
  | _ => none

end Decimal

end Calculator
