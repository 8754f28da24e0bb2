import Calculator.Json.Basic
import Calculator.Radix.Literal

/-!
# Reading JSON

Blanks are spaces, tabs, line feeds and carriage returns. A number has no leading zeros, and digits
on both sides of a point. A string has no control characters, and knows the escapes of the format
only. A reader returns what it read with the text left after it, and values are read by recursion on
the nesting that the text can still hold.
-/

namespace Calculator.Json

/-- Whether a character may stand between tokens. -/
def isBlank (c : Char) : Bool := c == ' ' || c == '\t' || c == '\n' || c == '\r'

/-- A text without the blanks at its start. -/
def skipBlanks (s : Text) : Text := s.dropWhile isBlank

/-- A character of a string, or a 16-bit unit that an escape names. -/
inductive Piece where
  | char (c : Char)
  | unit (n : Nat)
  deriving DecidableEq, Repr

/-- The characters that pieces stand for. Two units of a surrogate pair stand for one character, and
half of a pair stands for none. -/
def joinPieces : List Piece → Option Text
  | [] => some []
  | .char c :: rest => (joinPieces rest).map (c :: ·)
  | .unit high :: .unit low :: rest =>
    if 0xD800 ≤ high ∧ high < 0xDC00 then
      if 0xDC00 ≤ low ∧ low < 0xE000 then
        (joinPieces rest).map
          (Char.ofNat (0x10000 + (high - 0xD800) * 0x400 + (low - 0xDC00)) :: ·)
      else none
    else if 0xDC00 ≤ high ∧ high < 0xE000 then none
    else (joinPieces (.unit low :: rest)).map (Char.ofNat high :: ·)
  | .unit n :: rest =>
    if 0xD800 ≤ n ∧ n < 0xE000 then none else (joinPieces rest).map (Char.ofNat n :: ·)

/-- The character of an escape with one letter. -/
def escaped? : Char → Option Char
  | '"' => some '"'
  | '\\' => some '\\'
  | '/' => some '/'
  | 'b' => some '\x08'
  | 'f' => some '\x0C'
  | 'n' => some '\n'
  | 'r' => some '\r'
  | 't' => some '\t'
  | _ => none

/-- Reads a string after its opening quote. -/
def readPieces : Text → Option (List Piece × Text)
  | [] => none
  | '"' :: rest => some ([], rest)
  | '\\' :: 'u' :: a :: b :: c :: d :: rest => do
    let n ← Radix.hex.magnitude? [a, b, c, d]
    let (pieces, rest) ← readPieces rest
    return (.unit n :: pieces, rest)
  | '\\' :: c :: rest => do
    let c ← escaped? c
    let (pieces, rest) ← readPieces rest
    return (.char c :: pieces, rest)
  | c :: rest =>
    if c.toNat < 0x20 || c == '\\' then none
    else do
      let (pieces, rest) ← readPieces rest
      return (.char c :: pieces, rest)

/-- Reads at least one digit. -/
def readDigits (s : Text) : Option (Text × Text) :=
  let run := s.takeWhile Char.isDigit
  if run.isEmpty then none else some (run, s.dropWhile Char.isDigit)

/-- Reads digits without a zero before them. -/
def readWhole : Text → Option (Text × Text)
  | '0' :: c :: rest => if c.isDigit then none else some (['0'], c :: rest)
  | s => readDigits s

/-- Reads the digits after a point, if there is one. -/
def readFraction : Text → Option (Text × Text)
  | '.' :: rest => readDigits rest
  | s => some ([], s)

/-- Reads an exponent, if there is one. -/
def readExponent : Text → Option ((Bool × Text) × Text)
  | c :: rest =>
    if c == 'e' || c == 'E' then
      match rest with
      | '-' :: rest => (readDigits rest).map fun (run, rest) => ((true, run), rest)
      | '+' :: rest => (readDigits rest).map fun (run, rest) => ((false, run), rest)
      | rest => (readDigits rest).map fun (run, rest) => ((false, run), rest)
    else some ((false, []), c :: rest)
  | [] => some ((false, []), [])

/-- Reads a number. -/
def readNumeral (s : Text) : Option (Json × Text) := do
  let (negative, s) := match s with
    | '-' :: s => (true, s)
    | s => (false, s)
  let (whole, s) ← readWhole s
  let (fraction, s) ← readFraction s
  let ((lowers, exponent), s) ← readExponent s
  return (.number ⟨negative, whole, fraction, lowers, exponent⟩, s)

/-- Reads items with commas between them up to a closing bracket; at most `limit` of them. -/
def readItems {α : Type} (item : Text → Option (α × Text)) (closing : Char) :
    (limit : Nat) → Text → Option (List α × Text)
  | 0, _ => none
  | limit + 1, s => do
    let (first, rest) ← item s
    match skipBlanks rest with
    | [] => none
    | c :: rest =>
      if c = closing then some ([first], rest)
      else if c = ',' then
        let (others, rest) ← readItems item closing limit rest
        return (first :: others, rest)
      else none

/-- Reads the inside of brackets, which may be empty. -/
def readInside {α : Type} (item : Text → Option (α × Text)) (closing : Char) (s : Text) :
    Option (List α × Text) :=
  match skipBlanks s with
  | [] => none
  | c :: rest =>
    if c = closing then some ([], rest) else readItems item closing (s.length + 1) (c :: rest)

/-- Reads a key, which need not stand for characters, and the value after it. -/
def readMember (value : Text → Option (Json × Text)) (s : Text) :
    Option ((Option Text × Json) × Text) :=
  match skipBlanks s with
  | '"' :: rest => do
    let (pieces, rest) ← readPieces rest
    match skipBlanks rest with
    | ':' :: rest => do
      let (json, rest) ← value rest
      return ((joinPieces pieces, json), rest)
    | _ => none
  | _ => none

/-- The object with the given members, which is broken if one of its keys is. -/
def ofMembers (members : List (Option Text × Json)) : Json :=
  match members.mapM fun (key, value) => key.map (·, value) with
  | some members => .object members
  | none => .broken

/-- Reads a value whose brackets are at most `depth` deep. -/
def readValue : (depth : Nat) → Text → Option (Json × Text)
  | 0, _ => none
  | depth + 1, s =>
    match skipBlanks s with
    | 'n' :: 'u' :: 'l' :: 'l' :: rest => some (.null, rest)
    | 't' :: 'r' :: 'u' :: 'e' :: rest => some (.bool true, rest)
    | 'f' :: 'a' :: 'l' :: 's' :: 'e' :: rest => some (.bool false, rest)
    | '"' :: rest => do
      let (pieces, rest) ← readPieces rest
      return ((joinPieces pieces).elim .broken .string, rest)
    | '[' :: rest => do
      let (items, rest) ← readInside (readValue depth) ']' rest
      return (.array items, rest)
    | '\x7b' :: rest => do
      let (members, rest) ← readInside (readMember (readValue depth)) '\x7d' rest
      return (ofMembers members, rest)
    | s => readNumeral s

/-- Reads a whole text. -/
def parse? (s : Text) : Option Json := do
  let (json, rest) ← readValue (s.length + 1) s
  guard (skipBlanks rest).isEmpty
  return json

end Calculator.Json
