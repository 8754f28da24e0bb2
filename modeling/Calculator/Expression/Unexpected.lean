import Calculator.Text

/-!
# What makes a text no expression

A text that is no expression has a first place where none can go on. The place counts characters,
and what stands there is a character, the end of the text, a run of digits and points that is no
number, or one sign or bracket too many around an operand.
-/

namespace Calculator

/-- The number of signs and brackets that may stand around one operand. -/
def maxNesting : Nat := 256

/-- What stands where no expression can go on. -/
inductive Found where
  /-- Nothing: the text has ended. -/
  | ending
  /-- A character that starts no operand and continues no expression. -/
  | character (c : Char)
  /-- Digits and points that form no number. -/
  | numeral (run : Text)
  /-- An operand inside too many signs and brackets. -/
  | nesting
  deriving DecidableEq, Repr

/-- The words for what was found. -/
def Found.text : Found → Text
  | .ending => "end of input"
  | .character c => "'" ++ [c] ++ "'"
  | .numeral run => "number '" ++ run ++ "'"
  | .nesting => "nesting deeper than " ++ Text.ofNat maxNesting

/-- The first thing in a text that no expression can contain there. -/
structure Unexpected where
  /-- The number of characters before it. -/
  position : Nat
  /-- What stands there. -/
  found : Found
  deriving DecidableEq, Repr

end Calculator
