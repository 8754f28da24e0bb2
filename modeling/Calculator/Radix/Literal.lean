import Calculator.Number.Fixed
import Calculator.Radix.Basic

/-!
# Integer literals

A literal is digits of its base, of either case and with any leading zeros, after at most one sign.
It stands for a 64-bit integer. Integers are written back with capital digits, without leading
zeros, and with a sign when they are negative.
-/

namespace Calculator.Radix

/-- The value of an ASCII letter or digit as a digit. -/
def digitOf? (c : Char) : Option Nat :=
  if c.isDigit then some (c.toNat - '0'.toNat)
  else if c.isUpper then some (c.toNat - 'A'.toNat + 10)
  else if c.isLower then some (c.toNat - 'a'.toNat + 10)
  else none

/-- The value of a character as a digit of a base. -/
def digit? (r : Radix) (c : Char) : Option Nat := (digitOf? c).filter (· < r.base)

/-- Whether a character is a digit of a base. -/
def hasDigit (r : Radix) (c : Char) : Bool := (r.digit? c).isSome

/-- The value of a text whose characters all are digits of a base. -/
def magnitude? (r : Radix) (digits : Text) : Option Nat :=
  digits.foldlM (fun n c => (r.digit? c).map (n * r.base + ·)) 0

/-- Whether a text has a minus sign, and the text after the sign that it may have. -/
def splitSign : Text → Bool × Text
  | '-' :: digits => (true, digits)
  | '+' :: digits => (false, digits)
  | digits => (false, digits)

/-- The 64-bit integer equal to an integer, if there is one. -/
def toInt64? (n : Int) : Option Int64 :=
  if Int64.minValue.toInt ≤ n ∧ n ≤ Int64.maxValue.toInt then some (Int64.ofInt n) else none

/-- The integer that a literal of a base stands for. -/
def parse? (r : Radix) (s : Text) : Option Int64 := do
  let (negative, digits) := splitSign s
  guard !digits.isEmpty
  let n ← r.magnitude? digits
  toInt64? (if negative then -(n : Int) else n)

/-- The integer that a literal stands for, or the failure that names the literal and its base. -/
def parse (r : Radix) (s : Text) : Except Failure Int64 :=
  match r.parse? s with
  | some n => .ok n
  | none => .error (.literal s r.base)

/-- An integer written in a base. -/
def render (r : Radix) (n : Int64) : Text :=
  (if n < 0 then "-" else "") ++ (Nat.toDigits r.base n.toInt.natAbs).map Char.toUpper

/-- A literal carried from one base to another; what is no literal counts as zero. -/
def convert (source target : Radix) (literal : Text) : Text :=
  target.render ((source.parse? literal).getD 0)

end Calculator.Radix
