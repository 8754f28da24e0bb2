import Calculator.Number.Decimal

/-!
# Values with a bounded number of places

A whole double is written as the 64-bit integer it truncates to. Any other is rounded to a number of
places, ties to even, and written without zeros at the end of them. Zero never has a sign.
-/

namespace Calculator.Double

-- Powers are those of `Nat` itself, whatever is imported.
attribute [local instance (high)] instPowNat

/-- Whether a double is a whole number. -/
def isWhole : Double → Bool := isMultipleOf 1

/-- The magnitude rounded to a number of places. -/
def rounded (places units : Nat) : Decimal :=
  Decimal.reduced places (roundHalfEven (units * 10 ^ places) one)

end Calculator.Double

namespace Calculator.Text

/-- The decimal text of a 64-bit integer. -/
def ofInt64 (n : Int64) : Text :=
  (if n < 0 then "-" else "") ++ ofNat n.toInt.natAbs

/-- A double with at most `places` decimal places; the empty text for what is not finite. -/
def ofRounded (places : Nat) (x : Double) : Text :=
  if x.isWhole then ofInt64 x.truncate
  else match x with
    | .finite negative units =>
      let d := Double.rounded places units
      (if negative && d.coefficient != 0 then "-" else "") ++ d.text
    | _ => []

end Calculator.Text
