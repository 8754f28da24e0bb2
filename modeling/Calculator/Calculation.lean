import Calculator.Outcome
import Calculator.Radix.Conversion
import Calculator.Scientific.Reduction
import Calculator.Settings

/-!
# The two calculations

The scientific calculation reduces the function calls of a text, writes the constants for their
symbols, and evaluates what is left. The programmer calculation converts the literals of a text to
base ten, evaluates it without powers, and cuts the value to an integer of the base.
-/

namespace Calculator

namespace Settings

/-- The value of a scientific expression. -/
def scientificValue (settings : Settings) (s : Text) : Except Failure Float := do
  let reduced ← reduceCalls settings.constants settings.maxReductions s
  (evaluate .scientific (settings.constants.substitute reduced)).mapError Failure.ofUnexpected

/-- The outcome of a scientific expression. -/
def scientificOutcome (settings : Settings) (s : Text) : Outcome :=
  Outcome.ofResult (settings.scientificValue s)

/-- The display of a scientific expression. -/
def scientificDisplay (settings : Settings) (s : Text) : Text :=
  Display.ofOutcome settings.fractionDigits (settings.scientificOutcome s)

end Settings

/-- The value of a programmer expression. -/
def programmerValue (r : Radix) (s : Text) : Except Failure Float := do
  let decimal ← r.toBaseTen s
  (evaluate .programmer decimal).mapError Failure.ofUnexpected

/-- The outcome of a programmer expression, before it is cut to an integer. -/
def programmerOutcome (r : Radix) (s : Text) : Outcome := Outcome.ofResult (programmerValue r s)

/-- The display of a programmer expression in its base. -/
def programmerDisplay (r : Radix) (s : Text) : Text :=
  Display.ofOutcomeIn r (programmerOutcome r s)

end Calculator
