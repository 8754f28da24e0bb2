import Calculator.Proofs.Expression.Grammar
import Calculator.Scientific.Constants
import Calculator.Scientific.Function

/-!
# Formulas

Expressions with the named constants and function calls, as trees. A formula has a value without
any text being rewritten: a constant has its own, and a call has that of its function at the value
of its argument. The argument of a call may contain calls but no brackets of its own.
-/

namespace Calculator

open Expression (Level spaces)

/-- An expression in which constants and function calls may stand for numbers. -/
inductive Formula where
  /-- A number in digits. -/
  | number (value : Decimal)
  /-- The word `NaN`. -/
  | undefined
  /-- The word `inf`. -/
  | infinity
  /-- The symbol `π`. -/
  | pi
  /-- The symbol `e`. -/
  | e
  /-- A sign `+` before an operand. -/
  | plus (operand : Formula)
  /-- A sign `-` before an operand. -/
  | minus (operand : Formula)
  /-- A formula in brackets. -/
  | group (inner : Formula)
  /-- A function and its argument. -/
  | call (function : Function) (argument : Formula)
  /-- An operator between two operands. -/
  | binary (operator : Operator) (left right : Formula)


namespace Formula

/-- The value of a formula, by recursion on its structure. -/
def value (constants : Constants) : Formula → Float
  | .number d => d.toFloat
  | .undefined => 0.0 / 0.0
  | .infinity => 1.0 / 0.0
  | .pi => constants.pi
  | .e => constants.e
  | .plus formula => formula.value constants
  | .minus formula => -formula.value constants
  | .group formula => formula.value constants
  | .call f argument => f.apply (argument.value constants)
  | .binary op l r => op.apply (l.value constants) (r.value constants)

/-- The greatest number of signs and brackets around one number. Calls do not count, since they are
gone before the text around them is read. -/
def nesting : Formula → Nat
  | .number _ | .undefined | .infinity | .pi | .e => 0
  | .plus formula | .minus formula | .group formula => formula.nesting + 1
  | .call _ argument => argument.nesting
  | .binary _ l r => max l.nesting r.nesting

/-- A formula without brackets other than those of its calls. -/
def GroupFree : Formula → Prop
  | .number _ | .undefined | .infinity | .pi | .e => True
  | .plus formula | .minus formula | .call _ formula => formula.GroupFree
  | .group _ => False
  | .binary _ l r => l.GroupFree ∧ r.GroupFree

/-- The grammar of formulas. Spaces may stand before every token except between the name of a
function and its opening bracket, and every bracket is closed. -/
inductive Derives : Level → Text → Formula → Prop
  /-- A term alone is a formula. -/
  | ofTerm {s formula} (h : Derives .term s formula) : Derives .sum s formula
  /-- A formula goes on with an adding operator and a term. -/
  | addition {s t l r op} (n : Nat) (hop : op.JoinsTerms)
      (hl : Derives .sum s l) (hr : Derives .term t r) :
      Derives .sum (s ++ spaces n ++ op.sign :: t) (.binary op l r)
  /-- A factor alone is a term. -/
  | ofFactor {s formula} (h : Derives .factor s formula) : Derives .term s formula
  /-- A term goes on with a multiplying operator and a factor. -/
  | product {s t l r op} (n : Nat) (hop : op.JoinsFactors .scientific)
      (hl : Derives .term s l) (hr : Derives .factor t r) :
      Derives .term (s ++ spaces n ++ op.sign :: t) (.binary op l r)
  /-- A sign before a factor. -/
  | plus {s formula} (n : Nat) (h : Derives .factor s formula) :
      Derives .factor (spaces n ++ '+' :: s) (.plus formula)
  /-- A sign before a factor. -/
  | minus {s formula} (n : Nat) (h : Derives .factor s formula) :
      Derives .factor (spaces n ++ '-' :: s) (.minus formula)
  /-- A formula in brackets. -/
  | group {s formula} (n m : Nat) (h : Derives .sum s formula) :
      Derives .factor (spaces n ++ '(' :: s ++ spaces m ++ [')']) (.group formula)
  /-- A call, whose argument has no brackets but those of other calls. -/
  | call {s argument} (n m : Nat) (f : Function) (hfree : argument.GroupFree)
      (h : Derives .sum s argument) :
      Derives .factor (spaces n ++ f.name ++ '(' :: s ++ spaces m ++ [')']) (.call f argument)
  /-- A number. -/
  | number {s} (n : Nat) (h : Decimal.IsNumeral s) :
      Derives .factor (spaces n ++ s) (.number (.ofNumeral s))
  /-- The word for no number. -/
  | undefined (n : Nat) : Derives .factor (spaces n ++ ['N', 'a', 'N']) .undefined
  /-- The word for infinity. -/
  | infinity (n : Nat) : Derives .factor (spaces n ++ ['i', 'n', 'f']) .infinity
  /-- The symbol of the circle number. -/
  | pi (n : Nat) : Derives .factor (spaces n ++ ['π']) .pi
  /-- The symbol of the base of the natural logarithm. -/
  | e (n : Nat) : Derives .factor (spaces n ++ ['e']) .e

end Formula

end Calculator
