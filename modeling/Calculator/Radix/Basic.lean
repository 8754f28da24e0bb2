import Calculator.Failure

/-!
# The four bases

Integers of the programmer calculator are written in base two, eight, ten or sixteen. A name is
looked up without regard to the case of its letters.
-/

namespace Calculator

/-- A base of the programmer calculator. -/
inductive Radix where
  | bin
  | oct
  | dec
  | hex
  deriving DecidableEq, Repr

namespace Radix

/-- The bases in the order in which conversions are listed. -/
def all : List Radix := [.hex, .dec, .oct, .bin]

/-- The number that a base is. -/
def base : Radix → Nat
  | .bin => 2
  | .oct => 8
  | .dec => 10
  | .hex => 16

/-- The name of a base. -/
def name : Radix → Text
  | .bin => ['B', 'I', 'N']
  | .oct => ['O', 'C', 'T']
  | .dec => ['D', 'E', 'C']
  | .hex => ['H', 'E', 'X']

/-- The base with a name, in any mix of ASCII cases. -/
def ofName? (s : Text) : Option Radix := all.find? (·.name == s.map Char.toUpper)

/-- The base that a number is. -/
def ofBase (n : Nat) : Except Failure Radix :=
  match all.find? (·.base == n) with
  | some r => .ok r
  | none => .error (.base n)

end Radix

end Calculator
