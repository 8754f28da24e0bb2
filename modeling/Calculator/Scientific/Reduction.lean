import Calculator.Expression.Parser
import Calculator.Failure
import Calculator.Scientific.Call
import Calculator.Scientific.Constants

/-!
# Reducing function calls

An expression with function calls becomes plain arithmetic by writing, for one innermost call after
the other, the text of its value. Each step takes the first call and removes one opening bracket, so
a budget of one step for each opening bracket is enough for every text.
-/

namespace Calculator

/-- The text of the value of a call. -/
def Call.literal (constants : Constants) (call : Call) : Except Failure Text :=
  match evaluate .scientific (constants.substitute call.argument) with
  | .ok x => .ok (Text.ofFloat (call.function.apply x))
  | .error u => .error (.argument call.function.name (Failure.ofUnexpected u).message)

/-- Reduces first calls until there is none, in at most `steps` of the `limit` steps. -/
def reduceWithin (constants : Constants) (limit : Nat) : (steps : Nat) → Text → Except Failure Text
  | steps, s =>
    match Call.first? s with
    | none => .ok s
    | some (before, call, after) =>
      match steps with
      | 0 => .error (.reductions limit)
      | steps + 1 => do
        let literal ← call.literal constants
        reduceWithin constants limit steps (before ++ literal ++ after)

/-- Reduces every function call of a text. The budget is `maxReductions` or the number of opening
brackets, whichever is larger. -/
def reduceCalls (constants : Constants) (maxReductions : Nat) (s : Text) : Except Failure Text :=
  let limit := max maxReductions (s.count '(')
  reduceWithin constants limit limit s

end Calculator
