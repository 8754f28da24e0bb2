import Calculator.Number.Shortest

/-!
# The named constants

The symbols `π` and `e` stand for doubles and are replaced by their texts before an expression is
read. The replacement is of characters: `2π` becomes one run of digits.
-/

namespace Calculator

/-- The values of the two symbols. -/
structure Constants where
  /-- The value of `π`. -/
  pi : Float
  /-- The value of `e`. -/
  e : Float

namespace Constants

/-- The doubles nearest to the circle number and to the base of the natural logarithm. -/
def standard : Constants := ⟨3.141592653589793, 2.718281828459045⟩

/-- Writes the values of the constants for their symbols, first for `π` and then for `e`. -/
def substitute (constants : Constants) (s : Text) : Text :=
  Text.replaceChar 'e' (Text.ofFloat constants.e)
    (Text.replaceChar 'π' (Text.ofFloat constants.pi) s)

end Constants

end Calculator
