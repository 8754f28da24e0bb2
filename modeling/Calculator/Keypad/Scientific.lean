import Calculator.Calculation
import Calculator.History.Entry

/-!
# The keypad of the scientific calculator

The keypad holds the expression being typed and the result on display. An operator or a function
pressed after a calculation goes on from its result. An expression that consists of `0` alone is
replaced by what is typed.
-/

namespace Calculator.Keypad

/-- What a keypad shows before anything is typed. -/
def initial : Text := ['0']

/-- The keypad of the scientific calculator. -/
structure Scientific where
  /-- The expression being typed. -/
  expression : Text := initial
  /-- The result on display. -/
  result : Text := initial
  deriving DecidableEq, Repr

namespace Scientific

/-- Whether a result is on display that can be gone on from. -/
def showsValue (keypad : Scientific) : Bool :=
  keypad.result != initial && keypad.result != Display.error

/-- Whether the last character of the expression is a digit. -/
def afterDigit (keypad : Scientific) : Bool := keypad.expression.getLast?.any Char.isDigit

/-- Types a whole line. -/
def typeLine (_ : Scientific) (line : Text) : Scientific := { expression := Text.trim line }

/-- Types digits. -/
def pressDigits (keypad : Scientific) (digits : Text) : Scientific :=
  { expression := if keypad.expression = initial then digits else keypad.expression ++ digits }

/-- Types an operator or a bracket, after the result if there is one. -/
def pressOperator (keypad : Scientific) (operator : Text) : Scientific :=
  if keypad.showsValue then { expression := keypad.result ++ operator }
  else { keypad with expression := keypad.expression ++ operator }

/-- Types the opening of a function call, or applies the function to the result if there is one. A
function of an angle is multiplied with the number before it. -/
def pressFunction (keypad : Scientific) (f : Function) : Scientific :=
  let opening := f.name ++ ['(']
  if keypad.showsValue then { expression := opening ++ keypad.result ++ [')'] }
  else if keypad.expression = initial then { keypad with expression := opening }
  else
    let times : Text := if f.takesAngle && keypad.afterDigit then ['*'] else []
    { keypad with expression := keypad.expression ++ times ++ opening }

/-- Types the symbol of a constant, multiplied with the number before it. -/
def pressConstant (keypad : Scientific) (symbol : Text) : Scientific :=
  if keypad.expression = initial then { expression := symbol }
  else
    let times : Text := if keypad.afterDigit then ['*'] else []
    { expression := keypad.expression ++ times ++ symbol }

/-- The digits and points at the end of the expression, from the last on. -/
def typedNumber (keypad : Scientific) : Text :=
  keypad.expression.reverse.takeWhile Expression.isNumeric

/-- Types a decimal point, unless the number being typed has one. -/
def pressPoint (keypad : Scientific) : Scientific :=
  if keypad.typedNumber.contains '.' then keypad
  else { keypad with expression := keypad.expression ++ ['.'] }

/-- Deletes the last character; the last one left becomes `0`. -/
def eraseLast (keypad : Scientific) : Scientific :=
  { keypad with
    expression := if 1 < keypad.expression.length then keypad.expression.dropLast else initial }

/-- Starts over. -/
def clear (_ : Scientific) : Scientific := {}

/-- Shows the result of an expression, as when it is reopened from a history. -/
def reopen (settings : Settings) (_ : Scientific) (expression : Text) : Scientific :=
  { expression, result := settings.scientificDisplay expression }

/-- Shows the result of the expression. The calculation is kept unless the result reads `Error`. -/
def calculate (settings : Settings) (keypad : Scientific) : Scientific × Option Record :=
  let result := settings.scientificDisplay keypad.expression
  ({ keypad with result },
    if result = Display.error then none else some (.engineering keypad.expression result))

end Scientific

end Calculator.Keypad
