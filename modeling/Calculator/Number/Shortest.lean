import Calculator.Number.Decimal

/-!
# The shortest text of a double

A double is written with the fewest digits that read back to it, and of those with the digits
nearest to it. The search goes from coarse decimal grids to finer ones. On each grid only the two
neighbours of the double can be nearest, and both are tried by reading them. Every double has a
neighbour that reads back on the grid of `10^-324`, where the search ends.
-/

namespace Calculator.Double

-- Powers are those of `Nat` itself, whatever is imported.
attribute [local instance (high)] instPowNat

/-- The decimal places of the finest grid. -/
def gridPlaces : Nat := 324

/-- The steps of the finest grid in the number one. -/
def gridSteps : Nat := 10 ^ gridPlaces

/-- The decimal of `count` steps of `10^zeros` grid steps each. -/
def gridPoint (count zeros : Nat) : Decimal :=
  Decimal.reduced gridPlaces (count * 10 ^ zeros)

/-- The neighbour of a magnitude on the grid of `10^zeros` grid steps that reads back to it; of two
the nearer one, and the upper one when both are as near. -/
def neighbour? (bits zeros : Nat) : Option Decimal :=
  let num := unitsOfBits bits * gridSteps
  let den := one * 10 ^ zeros
  let count := num / den
  let lower := nearestBits (count * 10 ^ zeros) gridSteps == bits
  let upper := nearestBits ((count + 1) * 10 ^ zeros) gridSteps == bits
  if lower && (!upper || decide (2 * (num % den) < den)) then some (gridPoint count zeros)
  else if upper then some (gridPoint (count + 1) zeros)
  else none

/-- The first of the grids of `10^(zeros - 1)`, …, `1` grid steps with a neighbour that reads back,
else the exact decimal. -/
def shortestBelow (bits : Nat) : Nat → Decimal
  | 0 => Decimal.reduced 1074 (unitsOfBits bits * 5 ^ (1074 : Nat))
  | zeros + 1 => (neighbour? bits zeros).getD (shortestBelow bits zeros)

/-- The decimal with the fewest digits that reads back to a finite magnitude. -/
def shortest (bits : Nat) : Decimal :=
  shortestBelow bits (Nat.toDigits 10 (unitsOfBits bits * gridSteps / one)).length

end Calculator.Double

namespace Calculator.Text

attribute [local instance (high)] instPowNat

/-- The text of a double: positional digits, however large or small it is, with `inf` and `NaN` for
what has no digits. -/
def ofFloat (x : Float) : Text :=
  match Double.ofFloat x with
  | .nan => "NaN"
  | .infinite negative => (if negative then "-" else "") ++ "inf"
  | .finite negative _ =>
    (if negative then "-" else "") ++ (Double.shortest (x.toBits.toNat % 2 ^ (63 : Nat))).text

end Calculator.Text
