import Calculator.Json.Parser
import Calculator.Number.Double

/-!
# Reading values out of JSON

A record is written as an object, whose unknown members count for nothing and whose known members
may occur once, or as an array of its fields in their order. A name from a list is written as a
string, or as an object with this one key and `null`.
-/

namespace Calculator.Json

/-- The value of a known member: none if it is missing, and a failure if it is repeated. -/
def member? (members : List (Text × Json)) (name : Text) : Option (Option Json) :=
  match members.filter (·.1 == name) with
  | [] => some none
  | [(_, value)] => some (some value)
  | _ => none

/-- The fields of a record with the given names, each of which may be missing. -/
def fields? (names : List Text) : Json → Option (List (Option Json))
  | .object members => names.mapM (member? members)
  | .array items =>
    if items.length ≤ names.length then
      some (items.map some ++ List.replicate (names.length - items.length) none)
    else none
  | _ => none

/-- The members of an object with the given names, each of which may be missing. -/
def named? (names : List Text) : Json → Option (List (Option Json))
  | .object members => names.mapM (member? members)
  | _ => none

/-- The characters of a string. -/
def string? : Json → Option Text
  | .string s => some s
  | _ => none

/-- The items of an array. -/
def array? : Json → Option (List Json)
  | .array items => some items
  | _ => none

/-- A natural number below `2^width`. -/
def nat? (width : Nat) : Json → Option Nat
  | .number n => n.toNat? width
  | _ => none

/-- A name from a list. -/
def name? : Json → Option Text
  | .string s => some s
  | .object [(key, .null)] => some key
  | _ => none

end Calculator.Json

namespace Calculator.Numeral

-- Powers are those of `Nat` itself, whatever is imported.
attribute [local instance (high)] instPowNat

/-- Appends digits to a number as long as it stays below `2^64`, and counts the digits left. -/
def accumulate : (value : Nat) → Text → Nat × Nat
  | value, [] => (value, 0)
  | value, c :: digits =>
    let more := value * 10 + (c.toNat - '0'.toNat)
    if more < 2 ^ (64 : Nat) then accumulate more digits else (value, digits.length + 1)

/-- The double nearest to a power of ten. -/
def powerOfTen (n : Nat) : Float := Double.nearest false (10 ^ n) 1

/-- Divides by `10^308` as often as it says. -/
def divideDown : Nat → Float → Float
  | 0, x => x
  | steps + 1, x => if x == 0 then x else divideDown steps (x / powerOfTen 308)

/-- A number times a power of ten, in double arithmetic; none if it is too large. -/
def scale (significand : Nat) (exponent : Int) : Option Float :=
  let x := Double.nearest false significand 1
  if 0 ≤ exponent then
    if 308 < exponent then (if significand = 0 then some x else none)
    else
      let y := x * powerOfTen exponent.toNat
      if y.isInf then none else some y
  else
    let steps := (exponent.natAbs - 1) / 308
    let y := divideDown steps x
    some (if y == 0 then y else y / powerOfTen (exponent.natAbs - 308 * steps))

/-- The double read from a numeral, unless it is too large. The digits that fit 64 bits are scaled
once in double arithmetic, so the last bit may differ from the nearest double's. -/
def toFloat? (n : Numeral) : Option Float := do
  let (significand, skipped) := accumulate 0 n.whole
  let (significand, unread) := accumulate significand n.fraction
  let point : Int := skipped - (n.fraction.length - unread : Nat)
  let shift := Nat.ofDigitChars 10 n.exponent 0
  let x ← if shift < 2 ^ (31 : Nat) then
      scale significand (if n.lowers then point - shift else point + shift)
    else if significand ≠ 0 && !n.lowers then none
    else some 0
  return if n.negative then -x else x

end Calculator.Numeral

namespace Calculator.Json

/-- A double. -/
def float? : Json → Option Float
  | .number n => n.toFloat?
  | _ => none

end Calculator.Json
