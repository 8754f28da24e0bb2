import Calculator.Scientific.Function

/-!
# Function calls in a text

A call is the name of a function followed at once by an argument in brackets. Only calls whose
argument is not empty and holds no bracket are looked at: these are the innermost calls. A name need
not stand apart from the characters before it.
-/

namespace Calculator

/-- An innermost function call. -/
structure Call where
  /-- The function called. -/
  function : Function
  /-- The text between the brackets. -/
  argument : Text
  deriving DecidableEq, Repr

/-- Whether a character is a bracket. -/
def isBracket (c : Char) : Bool := c == '(' || c == ')'

namespace Call

/-- A call as it is written. -/
def text (call : Call) : Text := call.function.name ++ '(' :: call.argument ++ [')']

/-- The argument of a call whose name has been read, and the text after its closing bracket. -/
def argument? : Text → Option (Text × Text)
  | '(' :: s =>
    match s.takeWhile (!isBracket ·), s.dropWhile (!isBracket ·) with
    | c :: argument, ')' :: rest => some (c :: argument, rest)
    | _, _ => none
  | _ => none

/-- The call of one function that a text starts with, and the text after it. -/
def ofFunction? (f : Function) (s : Text) : Option (Call × Text) := do
  let (argument, rest) ← argument? (← f.name.dropStart? s)
  return (⟨f, argument⟩, rest)

/-- The call that a text starts with, and the text after it. -/
def starting? (s : Text) : Option (Call × Text) := Function.all.findSome? (ofFunction? · s)

/-- The first call of a text, between the text before it and the text after it. -/
def first? : Text → Option (Text × Call × Text)
  | [] => none
  | c :: s =>
    match starting? (c :: s) with
    | some (call, rest) => some ([], call, rest)
    | none => (first? s).map fun (before, call, rest) => (c :: before, call, rest)

end Call

end Calculator
