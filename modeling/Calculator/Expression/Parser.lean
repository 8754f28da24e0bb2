import Calculator.Expression.Basic
import Calculator.Expression.Unexpected

/-!
# Reading expressions

    expression := term (('+' | '-') term)*
    term       := factor (('*' | '/' | '^') factor)*     '^' in the scientific grammar only
    factor     := ('+' | '-') factor | '(' expression ')'? | number | word

Spaces may stand before every token, and closing brackets may be left out at the end of a text. A
reader takes a text and returns a tree with the text that it leaves, so the place of a fault is the
number of characters that are no longer left. Factors are read by recursion on the number of signs
and brackets that may still be opened, which bounds the reading of every text.
-/

namespace Calculator.Expression

/-- A fault of a text, placed by what is left there of the text. -/
structure Stop where
  /-- The text from the fault on. -/
  rest : Text
  /-- What stands there. -/
  found : Found
  deriving DecidableEq, Repr

/-- A tree and the text left after it, or the fault met on the way. -/
abbrev Reading := Except Stop (Expression × Text)

/-- The fault of a text that cannot go on with its first character. -/
def Stop.at : Text → Stop
  | [] => ⟨[], .ending⟩
  | c :: rest => ⟨c :: rest, .character c⟩

/-- A text without the spaces at its start. No other blank may stand between tokens. -/
def skipSpaces (s : Text) : Text := s.dropWhile (· == ' ')

/-- Reads on after the operand `left`: as long as an operator follows, another operand, joined to
the left. At most `limit` operators are read. -/
def chainFrom (operator? : Char → Option Operator) (operand : Text → Reading) :
    (limit : Nat) → (left : Expression) → Text → Reading
  | 0, left, s => .ok (left, s)
  | limit + 1, left, s =>
    match skipSpaces s with
    | [] => .ok (left, [])
    | c :: rest =>
      match operator? c with
      | none => .ok (left, c :: rest)
      | some op => do
        let (right, rest) ← operand rest
        chainFrom operator? operand limit (.binary op left right) rest

/-- Reads operands with operators of one level between them. There are fewer operators than
characters, so the bound on them is never met before the text ends. -/
def chain (operator? : Char → Option Operator) (operand : Text → Reading) (s : Text) : Reading := do
  let (left, rest) ← operand s
  chainFrom operator? operand (rest.length + 1) left rest

/-- Whether a character belongs to a number. -/
def isNumeric (c : Char) : Bool := c.isDigit || c == '.'

/-- Reads the longest run of digits and points at the start of a text, which must be a number. -/
def readNumber (s : Text) : Reading :=
  let run := s.takeWhile isNumeric
  match Decimal.parse? run with
  | some d => .ok (.number d, s.dropWhile isNumeric)
  | none => .error ⟨s, .numeral run⟩

/-- Reads one of the words of the scientific grammar. -/
def readWord : Grammar → Text → Reading
  | .scientific, 'N' :: 'a' :: 'N' :: rest => .ok (.undefined, rest)
  | .scientific, 'i' :: 'n' :: 'f' :: rest => .ok (.infinity, rest)
  | _, s => .error (.at s)

/-- A text without the closing bracket that may come next, nor the spaces before it. -/
def skipClosing (s : Text) : Text :=
  match skipSpaces s with
  | ')' :: rest => rest
  | rest => rest

/-- Reads factors with multiplying operators between them. -/
def readTerm (g : Grammar) (factor : Text → Reading) : Text → Reading :=
  chain (Operator.ofFactorSign? g) factor

/-- Reads terms with adding operators between them. -/
def readSum (g : Grammar) (factor : Text → Reading) : Text → Reading :=
  chain Operator.ofTermSign? (readTerm g factor)

/-- Reads one factor, which may open `depth` signs and brackets, itself counted as one. -/
def readFactor (g : Grammar) : (depth : Nat) → Text → Reading
  | 0, s => .error ⟨s, .nesting⟩
  | depth + 1, s =>
    match skipSpaces s with
    | [] => .error (.at [])
    | c :: rest =>
      if c = '+' then do
        let (e, rest) ← readFactor g depth rest
        return (.plus e, rest)
      else if c = '-' then do
        let (e, rest) ← readFactor g depth rest
        return (.minus e, rest)
      else if c = '(' then do
        let (e, rest) ← readSum g (readFactor g depth) rest
        return (.group e, skipClosing rest)
      else if isNumeric c then readNumber (c :: rest)
      else readWord g (c :: rest)

/-- Reads a whole text. -/
def parse (g : Grammar) (s : Text) : Except Unexpected Expression :=
  let outcome := do
    let (e, rest) ← readSum g (readFactor g maxNesting) s
    if rest.isEmpty then pure e else throw (Stop.at rest)
  outcome.mapError fun stop => ⟨s.length - stop.rest.length, stop.found⟩

end Calculator.Expression

namespace Calculator

/-- The value of a text in a grammar. -/
def evaluate (g : Grammar) (s : Text) : Except Unexpected Float :=
  (Expression.parse g s).map Expression.value

end Calculator
