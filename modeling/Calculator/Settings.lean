import Calculator.Radix.Basic
import Calculator.Scientific.Constants

/-!
# Settings

What may be set for the calculators and their history. Every field has a default.
-/

namespace Calculator

/-- The settings of the calculators. -/
structure Settings where
  /-- The decimal places of a displayed value. -/
  fractionDigits : Nat := 10
  /-- The function calls that may be reduced in any expression, however few brackets it has. -/
  maxReductions : Nat := 64
  /-- The base in which the programmer calculator starts. -/
  defaultRadix : Radix := .dec
  /-- The entries that a history keeps, where zero stands for all. -/
  historyLimit : Nat := 500
  /-- The values of the named constants. -/
  constants : Constants := Constants.standard

end Calculator
