import Calculator.Number.Fixed
import Calculator.Radix.Literal

/-!
# Outcomes and what is displayed

An expression has a finite value, no defined value, an infinite one, or is no expression at all.
Only three texts besides numbers are ever displayed, one for each of the other outcomes; in a base
they all read `Error`.
-/

namespace Calculator

/-- The outcome of an expression. -/
inductive Outcome where
  /-- A finite value. -/
  | value (x : Float)
  /-- No number, as the root of a negative number. -/
  | undefined
  /-- Either infinity, as a division by zero. -/
  | infinite
  /-- Anything that went wrong before there was a value. -/
  | malformed

namespace Outcome

/-- The outcome of a double. -/
def ofFloat (x : Float) : Outcome :=
  match Double.ofFloat x with
  | .nan => .undefined
  | .infinite _ => .infinite
  | .finite .. => .value x

/-- The outcome of a computation. -/
def ofResult {ε : Type} : Except ε Float → Outcome
  | .ok x => ofFloat x
  | .error _ => .malformed

/-- Whether an outcome is no value. -/
def isError : Outcome → Bool
  | .value _ => false
  | .undefined | .infinite | .malformed => true

end Outcome

namespace Display

/-- The display of what is no expression. -/
def error : Text := "Error"

/-- The display of an undefined value. -/
def undefined : Text := "Error: Undefined"

/-- The display of an infinite value. -/
def infinite : Text := "Error: Infinity"

/-- Whether a display is one of the three that are no number. -/
def isError (display : Text) : Bool := [error, undefined, infinite].contains display

/-- The display of an outcome in decimal, with at most `places` decimal places. -/
def ofOutcome (places : Nat) : Outcome → Text
  | .value x => Text.ofRounded places (Double.ofFloat x)
  | .undefined => undefined
  | .infinite => infinite
  | .malformed => error

/-- The display of a 64-bit integer, in decimal unless a base is given. -/
def ofInt64 (n : Int64) : Option Radix → Text
  | some r => r.render n
  | none => Text.ofInt64 n

/-- The display of an outcome in a base: the value cut to a 64-bit integer. -/
def ofOutcomeIn (r : Radix) : Outcome → Text
  | .value x => r.render (Double.ofFloat x).truncate
  | _ => error

end Display

end Calculator
