import Calculator.Text

/-!
# Doubles as exact numbers

A finite double is a whole multiple of `2^-1074`, the least positive one. `Double` is that view of a
`Float`: a sign and a count of units. Rounding a quotient to the nearest double, reading the
remainder of a double by a whole number and cutting it to a 64-bit integer are arithmetic on units.
-/

namespace Calculator

-- Powers are those of `Nat` itself, whatever is imported.
attribute [local instance (high)] instPowNat

/-- What a `Float` stands for. -/
inductive Double where
  /-- No number. -/
  | nan
  /-- Either infinity. -/
  | infinite (negative : Bool)
  /-- The multiple `units` of `2^-1074`, with its sign; zero has two signs. -/
  | finite (negative : Bool) (units : Nat)
  deriving DecidableEq, Repr

/-- The integer nearest to `num / den`; a half goes to the even neighbour. -/
def roundHalfEven (num den : Nat) : Nat :=
  let quotient := num / den
  let rest := num % den
  if 2 * rest < den then quotient
  else if den < 2 * rest then quotient + 1
  else quotient + quotient % 2

namespace Double

/-- The units in the number one. -/
def one : Nat := 2 ^ (1074 : Nat)

/-- The bits of positive infinity, above those of every finite magnitude. -/
def infinityBits : Nat := 2047 * 2 ^ (52 : Nat)

/-- The units of the finite magnitude with the given bits: eleven exponent bits over a fraction of
52 bits, with a leading one unless the exponent is zero. -/
def unitsOfBits (bits : Nat) : Nat :=
  let exponent := bits / 2 ^ (52 : Nat)
  let fraction := bits % 2 ^ (52 : Nat)
  if exponent = 0 then fraction else (2 ^ (52 : Nat) + fraction) * 2 ^ (exponent - 1)

/-- The double that 64 bits stand for. -/
def ofBits (bits : Nat) : Double :=
  let negative := decide (2 ^ (63 : Nat) ≤ bits)
  let magnitude := bits % 2 ^ (63 : Nat)
  if magnitude < infinityBits then .finite negative (unitsOfBits magnitude)
  else if magnitude = infinityBits then .infinite negative
  else .nan

/-- The exact view of a `Float`. -/
def ofFloat (x : Float) : Double := ofBits x.toBits.toNat

/-- The bits of the magnitude nearest to `num / den`. The quotient is rounded, half to even, at the
last of its 53 leading bits or at one unit; what rounds past the largest finite magnitude is
infinity. A carry into the next power of two needs no case of its own, since it carries into the
exponent bits. -/
def nearestBits (num den : Nat) : Nat :=
  let exponent := (num * one / den).log2 - 52
  min (exponent * 2 ^ (52 : Nat) + roundHalfEven (num * one) (den * 2 ^ exponent)) infinityBits

/-- The `Float` nearest to `num / den`, with a sign. -/
def nearest (negative : Bool) (num den : Nat) : Float :=
  Float.ofBits (UInt64.ofNat (nearestBits num den + if negative then 2 ^ (63 : Nat) else 0))

/-- Whether a double is a whole multiple of `k`. -/
def isMultipleOf (k : Nat) : Double → Bool
  | .finite _ units => units % (k * one) == 0
  | _ => false

/-- Whether a double divided by `k`, truncating, leaves the positive remainder `r`; the remainder
takes the sign of the double. -/
def leavesRemainder (k r : Nat) : Double → Bool
  | .finite false units => units % (k * one) == r * one
  | _ => false

/-- The integer nearest to `n` among the 64-bit integers. -/
def clamp (n : Int) : Int64 :=
  if n < Int64.minValue.toInt then Int64.minValue
  else if Int64.maxValue.toInt < n then Int64.maxValue
  else Int64.ofInt n

/-- A double cut toward zero to a 64-bit integer: too large a magnitude gives the outermost integer
and no number gives zero. -/
def truncate : Double → Int64
  | .nan => 0
  | .infinite true => Int64.minValue
  | .infinite false => Int64.maxValue
  | .finite true units => clamp (-(units / one : Nat))
  | .finite false units => clamp (units / one : Nat)

end Double

end Calculator
