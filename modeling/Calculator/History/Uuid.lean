import Calculator.Radix.Literal

/-!
# Identifiers

Entries of a history are told apart by 128 bits. They are written as 32 hexadecimal digits in groups
of eight, four, four, four and twelve. They are also read without the hyphens, in braces, and after
`urn:uuid:`, with letters of either case.
-/

namespace Calculator

/-- An identifier of 128 bits. -/
structure Uuid where
  /-- The bits as a number. -/
  bits : BitVec 128
  deriving DecidableEq, Repr

namespace Uuid

/-- The lengths of the groups of digits. -/
def groups : List Nat := [8, 4, 4, 4, 12]

/-- The 32 digits of an identifier. -/
def digits (id : Uuid) : Text :=
  let digits := Nat.toDigits 16 id.bits.toNat
  List.replicate (32 - digits.length) '0' ++ digits

/-- The written form of an identifier. -/
def text (id : Uuid) : Text :=
  let d := id.digits
  d.take 8 ++ '-' :: (d.drop 8).take 4 ++ '-' :: (d.drop 12).take 4 ++ '-' :: (d.drop 16).take 4 ++
    '-' :: d.drop 20

/-- Reads 32 digits. -/
def ofDigits? (s : Text) : Option Uuid :=
  if s.length = 32 then (Radix.hex.magnitude? s).map fun n => ⟨BitVec.ofNat 128 n⟩ else none

/-- Reads digits in groups with hyphens between them. -/
def ofGroups? (s : Text) : Option Uuid :=
  let parts := Text.splitAtChar '-' s
  if parts.map List.length = groups then ofDigits? parts.flatten else none

/-- The text between braces. -/
def unbraced? : Text → Option Text
  | '{' :: s => if s.getLast? = some '}' then some s.dropLast else none
  | _ => none

/-- The text after `urn:uuid:`, which may have letters of either case. -/
def unlabelled? (s : Text) : Option Text :=
  let label : Text := "urn:uuid:"
  if (s.take label.length).map Char.toLower = label then some (s.drop label.length) else none

/-- Reads an identifier in any of its forms. -/
def parse? (s : Text) : Option Uuid :=
  ofDigits? s <|> ofGroups? s <|> (unbraced? s).bind ofGroups? <|>
    (unlabelled? s).bind ofGroups?

end Uuid

end Calculator
