import Calculator.Keypad.Scientific

/-!
# The keypad of the programmer calculator

The keypad holds the input in the active base and the result on display. A calculation puts its
result into the input, and the next digit starts a new input.
-/

namespace Calculator.Keypad

/-- The keypad of the programmer calculator. -/
structure Programmer where
  /-- The input in the active base. -/
  input : Text := initial
  /-- The result on display. -/
  result : Text := initial
  /-- The active base. -/
  radix : Radix := .dec
  /-- Whether the input is a computed value, which the next digit replaces. -/
  replaces : Bool := false
  deriving DecidableEq, Repr

namespace Programmer

/-- Types a whole line. -/
def typeLine (keypad : Programmer) (line : Text) : Programmer :=
  { input := Text.trim line, radix := keypad.radix }

/-- Types a digit, as a capital; none if it is no digit of the base. -/
def pressDigit? (keypad : Programmer) (digit : Char) : Option Programmer :=
  if keypad.radix.hasDigit digit then
    let kept := if keypad.input = initial || keypad.replaces then [] else keypad.input
    some { input := kept ++ [digit.toUpper], radix := keypad.radix }
  else none

/-- Types an operator or a bracket; none if the character is neither. -/
def pressOperator? (keypad : Programmer) (operator : Char) : Option Programmer :=
  if Radix.isOperator operator then
    some { keypad with input := keypad.input ++ [operator], replaces := false }
  else none

/-- Activates a base and writes the input in it. An input that is no literal becomes `0`. -/
def activate (keypad : Programmer) (r : Radix) : Programmer :=
  if r = keypad.radix then keypad
  else { keypad with input := keypad.radix.convert r keypad.input, radix := r }

/-- The input in every base. An input that is no literal counts as zero. -/
def inEveryBase (keypad : Programmer) : List (Radix × Text) :=
  Radix.all.map fun r => (r, keypad.radix.convert r keypad.input)

/-- Deletes the last character; the last one left becomes `0`. -/
def eraseLast (keypad : Programmer) : Programmer :=
  { keypad with
    input := if 1 < keypad.input.length then keypad.input.dropLast else initial }

/-- Starts over in the active base. -/
def clear (keypad : Programmer) : Programmer := { radix := keypad.radix }

/-- Shows a result, which becomes the input. -/
def showing (result : Text) (r : Radix) : Programmer :=
  { input := result, result, radix := r, replaces := true }

/-- Shows the result of a kept expression in the base that it names. -/
def reopen (_ : Programmer) (stored : Text) : Programmer :=
  let (expression, r) := Record.untagged stored
  .showing (programmerDisplay r expression) r

/-- The results of which no calculation is kept. -/
def unusable : List Text := [Display.error, "", "NaN"]

/-- Shows the result of the input. The calculation is kept unless the result is unusable. -/
def calculate (keypad : Programmer) : Programmer × Option Record :=
  let result := programmerDisplay keypad.radix keypad.input
  (.showing result keypad.radix,
    if result ∈ unusable then none else some (.programmer keypad.input keypad.radix result))

end Programmer

end Calculator.Keypad
