import Calculator.Radix.Literal

/-!
# Expressions in a base

The operators and brackets of an expression split it into runs of other characters, and every run
that is not empty must be a literal. Converting the literals to base ten leaves the operators in
their places.
-/

namespace Calculator.Radix

/-- The characters between the literals of an expression. -/
def operators : Text := ['+', '-', '*', '/', '(', ')']

/-- Whether a character stands between literals. -/
def isOperator (c : Char) : Bool := operators.contains c

/-- The run before the first operator of a text, and each operator with the run after it. -/
def segments : Text → Text × List (Char × Text)
  | [] => ([], [])
  | c :: s =>
    let (run, rest) := segments s
    if isOperator c then ([], (c, run) :: rest) else (c :: run, rest)

/-- A run in base ten. An empty run is no literal and stays empty. -/
def convertRun (r : Radix) (run : Text) : Except Failure Text :=
  if run.isEmpty then .ok [] else (r.parse run).map Text.ofInt64

/-- An expression with its literals in base ten; the first run that is no literal is the failure. -/
def toBaseTen (r : Radix) (s : Text) : Except Failure Text := do
  let (run, rest) := segments s
  let first ← r.convertRun run
  let others ← rest.mapM fun (c, run) => return c :: (← r.convertRun run)
  return first ++ others.flatten

end Calculator.Radix
