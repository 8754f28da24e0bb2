import Calculator.Number.Double
import Calculator.Text

/-!
# The scientific functions

Angles are in degrees. A sine, cosine or tangent that is zero, and a tangent that is undefined, are
decided on the degrees, where they are exact; every other angle is converted to radians first.
-/

namespace Calculator

/-- A function of the scientific calculator. -/
inductive Function where
  | sin
  | cos
  | tan
  /-- The logarithm to base ten. -/
  | log
  /-- The natural logarithm. -/
  | ln
  | sqrt
  deriving DecidableEq, Repr

namespace Function

/-- All functions. -/
def all : List Function := [.sin, .cos, .tan, .log, .ln, .sqrt]

/-- The name of a function in an expression. -/
def name : Function → Text
  | .sin => ['s', 'i', 'n']
  | .cos => ['c', 'o', 's']
  | .tan => ['t', 'a', 'n']
  | .log => ['l', 'o', 'g']
  | .ln => ['l', 'n']
  | .sqrt => ['s', 'q', 'r', 't']

/-- The function with a name. -/
def ofName? (s : Text) : Option Function := all.find? (·.name == s)

/-- Whether the argument is an angle. -/
def takesAngle : Function → Bool
  | .sin | .cos | .tan => true
  | .log | .ln | .sqrt => false

/-- The double nearest to `π / 180`. -/
def radiansPerDegree : Float := 0.017453292519943295

/-- The value of a function. Outside of its domain it is no number or infinite. -/
def apply (f : Function) (x : Float) : Float :=
  let exact := Double.ofFloat x
  match f with
  | .sin => if exact.isMultipleOf 180 then 0 else (x * radiansPerDegree).sin
  | .cos =>
    if exact.isMultipleOf 90 && !exact.isMultipleOf 180 then 0 else (x * radiansPerDegree).cos
  | .tan =>
    if exact.isMultipleOf 180 then 0
    else if exact.leavesRemainder 180 90 then 0.0 / 0.0
    else (x * radiansPerDegree).tan
  | .log => x.log10
  | .ln => x.log
  | .sqrt => x.sqrt

end Function

end Calculator
