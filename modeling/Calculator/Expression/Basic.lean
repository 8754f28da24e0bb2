import Calculator.Number.Decimal

/-!
# Arithmetic expressions

The tree of an expression keeps every number, sign and bracket that is written, and nothing of the
spaces. Its value is computed with the operations of `Float`, so dividing by zero has a value. Two
grammars share the tree: the programmer grammar has no power and no words for what has no digits.
-/

namespace Calculator

/-- The two languages of arithmetic. -/
inductive Grammar where
  /-- All operators, and the words `NaN` and `inf`. -/
  | scientific
  /-- The operators `+`, `-`, `*` and `/` alone. -/
  | programmer
  deriving DecidableEq, Repr

/-- An operator between two operands. -/
inductive Operator where
  | add
  | subtract
  | multiply
  | divide
  | power
  deriving DecidableEq, Repr

/-- The value of an operator on two doubles. -/
def Operator.apply : Operator → Float → Float → Float
  | .add, x, y => x + y
  | .subtract, x, y => x - y
  | .multiply, x, y => x * y
  | .divide, x, y => x / y
  | .power, x, y => Float.pow x y

/-- An expression as it is written, but for spaces and closing brackets left out. -/
inductive Expression where
  /-- A number in digits. -/
  | number (value : Decimal)
  /-- The word `NaN`. -/
  | undefined
  /-- The word `inf`. -/
  | infinity
  /-- A sign `+` before an operand. -/
  | plus (operand : Expression)
  /-- A sign `-` before an operand. -/
  | minus (operand : Expression)
  /-- An expression in brackets. -/
  | group (inner : Expression)
  /-- An operator between two operands. -/
  | binary (operator : Operator) (left right : Expression)
  deriving DecidableEq, Repr

namespace Expression

/-- The value of an expression. -/
def value : Expression → Float
  | .number d => d.toFloat
  | .undefined => 0.0 / 0.0
  | .infinity => 1.0 / 0.0
  | .plus e => e.value
  | .minus e => -e.value
  | .group e => e.value
  | .binary op l r => op.apply l.value r.value

/-- The greatest number of signs and brackets around one number. -/
def nesting : Expression → Nat
  | .number _ | .undefined | .infinity => 0
  | .plus e | .minus e | .group e => e.nesting + 1
  | .binary _ l r => max l.nesting r.nesting

end Expression

/-- The operators of one level are read from left to right; addition binds weakest. -/
def Operator.ofTermSign? : Char → Option Operator
  | '+' => some .add
  | '-' => some .subtract
  | _ => none

/-- The operators between factors: power binds no tighter than multiplication. -/
def Operator.ofFactorSign? : Grammar → Char → Option Operator
  | _, '*' => some .multiply
  | _, '/' => some .divide
  | .scientific, '^' => some .power
  | _, _ => none

end Calculator
