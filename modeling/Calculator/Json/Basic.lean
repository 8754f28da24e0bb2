import Calculator.Text

/-!
# JSON values

A value keeps the digits of its numbers as they are written, since what they stand for is decided by
who reads them. An escape in a string may name half of a surrogate pair, and then the string has no
characters: such a value is broken and can only be skipped.
-/

namespace Calculator

-- Powers are those of `Nat` itself, whatever is imported.
attribute [local instance (high)] instPowNat

/-- A number as it is written. -/
structure Numeral where
  /-- Whether there is a minus sign. -/
  negative : Bool
  /-- The digits before the point. -/
  whole : Text
  /-- The digits after the point, none without a point. -/
  fraction : Text
  /-- Whether the exponent has a minus sign. -/
  lowers : Bool
  /-- The digits of the exponent, none without an exponent. -/
  exponent : Text
  deriving DecidableEq, Repr

/-- A JSON value. -/
inductive Json where
  | null
  | bool (b : Bool)
  | number (n : Numeral)
  | string (s : Text)
  | array (items : List Json)
  /-- The members in the order in which they are written, with repetitions. -/
  | object (members : List (Text × Json))
  /-- A string, or an object with a key, that stands for no characters. -/
  | broken
  deriving Repr

namespace Numeral

/-- A natural number. -/
def ofNat (n : Nat) : Numeral := ⟨false, Text.ofNat n, [], false, []⟩

/-- The natural number below `2^width` that a numeral without sign, point and exponent stands
for. -/
def toNat? (width : Nat) (n : Numeral) : Option Nat :=
  if !n.negative && n.fraction.isEmpty && n.exponent.isEmpty then
    let value := Nat.ofDigitChars 10 n.whole 0
    if value < 2 ^ width then some value else none
  else none

/-- The text of a number. -/
def text (n : Numeral) : Text :=
  (if n.negative then "-" else "") ++ n.whole ++
    (if n.fraction.isEmpty then [] else '.' :: n.fraction) ++
    (if n.exponent.isEmpty then []
      else 'e' :: (if n.lowers then '-' :: n.exponent else n.exponent))

end Numeral

namespace Json

/-- A natural number. -/
def ofNat (n : Nat) : Json := .number (.ofNat n)

end Json

end Calculator
