import Calculator.Expression.Unexpected

/-!
# Failures

Everything that can go wrong outside of arithmetic, each cause with its circumstances, its words and
its code. A failure may also come from a report, so its circumstances are any texts and numbers.
-/

namespace Calculator

/-- Why something could not be done. -/
inductive Failure where
  /-- A text is no expression from a position on. -/
  | unexpected (position : Nat) (found : Text)
  /-- The argument of a function call is no expression. -/
  | argument (function reason : Text)
  /-- A text is no integer literal in a base. -/
  | literal (text : Text) (base : Nat)
  /-- A base that is not among the four. -/
  | base (base : Nat)
  /-- More function calls than may be reduced. -/
  | reductions (limit : Nat)
  /-- An operation on a file. -/
  | file (operation path reason : Text)
  /-- A text is not the written form of a value. -/
  | format (reason : Text)
  /-- A history of another version. -/
  | version (found expected : Text)
  deriving DecidableEq, Repr

namespace Failure

/-- The words of a failure. -/
def message : Failure → Text
  | .unexpected position found =>
    "Syntax error at position " ++ Text.ofNat position ++ ": unexpected " ++ found
  | .argument function reason => "Error in " ++ function ++ ": " ++ reason
  | .literal text n => "Invalid digit in '" ++ text ++ "' for base " ++ Text.ofNat n
  | .base n => "Unsupported radix: " ++ Text.ofNat n
  | .reductions limit => "Function rewriting exceeded " ++ Text.ofNat limit ++ " steps"
  | .file operation path reason =>
    "File error: " ++ operation ++ " on '" ++ path ++ "' - " ++ reason
  | .format reason => "Serialization error: " ++ reason
  | .version found expected =>
    "Version mismatch: file version " ++ found ++ ", expected " ++ expected

/-- The code of the cause of a failure. -/
def code : Failure → Text
  | .unexpected .. => "SYNTAX_ERROR"
  | .argument .. => "FUNCTION_ERROR"
  | .literal .. => "INVALID_DIGIT"
  | .base .. => "UNSUPPORTED_RADIX"
  | .reductions .. => "REWRITE_LIMIT"
  | .file .. => "FILE_ERROR"
  | .format .. => "SERIALIZATION_ERROR"
  | .version .. => "VERSION_MISMATCH"

/-- Whether a failure comes from an expression, and not from a file. -/
def isOfExpression : Failure → Bool
  | .unexpected .. | .argument .. | .literal .. | .base .. | .reductions .. => true
  | .file .. | .format .. | .version .. => false

/-- The failure of a text that is no expression. -/
def ofUnexpected (u : Unexpected) : Failure := .unexpected u.position u.found.text

end Failure

end Calculator
