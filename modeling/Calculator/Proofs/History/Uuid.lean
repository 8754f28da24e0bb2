import Calculator.History.Uuid
import Calculator.Proofs.Radix.Literal
import Calculator.Proofs.Text

/-!
# The text of an identifier

An identifier is written with all of its 32 digits, in five groups with hyphens between them. No
digit is a hyphen, so the groups are found again, and their digits give the identifier back.
-/

namespace Calculator

/-- Zeros before digits do not change their value. -/
theorem Radix.magnitude?_zeros_append (r : Radix) (count : Nat) (digits : Text) :
    r.magnitude? (List.replicate count '0' ++ digits) = r.magnitude? digits := by
  induction count with
  | zero => rfl
  | succ count ih =>
    have hzero : r.digit? '0' = some 0 := by cases r <;> decide
    rw [← ih, List.replicate_succ, List.cons_append]
    simp [magnitude?, hzero]

namespace Uuid

theorem digits_length (id : Uuid) : id.digits.length = 32 := by
  have hle : (Nat.toDigits 16 id.bits.toNat).length ≤ 32 :=
    (Nat.length_toDigits_le_iff (by decide) (by decide)).mpr
      (Nat.lt_of_lt_of_eq id.bits.isLt (by decide))
  simp only [digits, List.length_append, List.length_replicate]
  omega

theorem magnitude?_digits (id : Uuid) : Radix.hex.magnitude? id.digits = some id.bits.toNat := by
  have hdigit : ∀ k < Radix.hex.base, Radix.hex.digit? (Nat.digitChar k) = some k := by decide
  have hread := Radix.magnitude?_map_toDigits (r := .hex) (f := fun c => c) hdigit id.bits.toNat
  rw [List.map_id'] at hread
  rw [digits, Radix.magnitude?_zeros_append]
  exact hread

/-- The digits of an identifier give it back. -/
theorem ofDigits?_digits (id : Uuid) : ofDigits? id.digits = some id := by
  rw [ofDigits?, if_pos id.digits_length, magnitude?_digits, Option.map_some, BitVec.ofNat_toNat,
    BitVec.setWidth_eq]

theorem hyphen_not_mem_digits (id : Uuid) : '-' ∉ id.digits := by
  intro hmem
  have hdigits := (Radix.magnitude?_eq_some_iff.mp id.magnitude?_digits).1 '-' hmem
  exact absurd hdigits (by decide)

/-- An identifier is written in its five groups. -/
theorem splitAtChar_text (id : Uuid) : Text.splitAtChar '-' id.text =
    [id.digits.take 8, (id.digits.drop 8).take 4, (id.digits.drop 12).take 4,
      (id.digits.drop 16).take 4, id.digits.drop 20] := by
  have hdrop (n : Nat) : '-' ∉ id.digits.drop n :=
    fun h => id.hyphen_not_mem_digits (List.mem_of_mem_drop h)
  have htake (n k : Nat) : '-' ∉ (id.digits.drop n).take k :=
    fun h => hdrop n (List.mem_of_mem_take h)
  have hfirst : '-' ∉ id.digits.take 8 := htake 0 8
  rw [text]
  simp only [List.append_assoc, List.cons_append]
  rw [Text.splitAtChar_append_cons hfirst, Text.splitAtChar_append_cons (htake 8 4),
    Text.splitAtChar_append_cons (htake 12 4), Text.splitAtChar_append_cons (htake 16 4),
    Text.splitAtChar_of_not_mem (hdrop 20)]

theorem ofGroups?_text (id : Uuid) : ofGroups? id.text = some id := by
  have hlength := id.digits_length
  have hgroups : (Text.splitAtChar '-' id.text).map List.length = groups := by
    simp [splitAtChar_text, groups, hlength]
  have hdigits : (Text.splitAtChar '-' id.text).flatten = id.digits := by
    have hjoin (n k : Nat) : (id.digits.drop n).take k ++ id.digits.drop (n + k) =
        id.digits.drop n := by
      rw [← List.drop_drop, List.take_append_drop]
    simp only [splitAtChar_text, List.flatten_cons, List.flatten_nil, List.append_nil]
    rw [hjoin 16 4, hjoin 12 4, hjoin 8 4, List.take_append_drop]
  rw [ofGroups?, if_pos hgroups, hdigits, ofDigits?_digits]

/-- **The text of an identifier reads back.** -/
theorem parse?_text (id : Uuid) : parse? id.text = some id := by
  have hlength : id.text.length = 36 := by
    have hdigits := id.digits_length
    simp only [text, List.length_append, List.length_cons, List.length_take, List.length_drop]
    omega
  have hdigits : ofDigits? id.text = none := by
    rw [ofDigits?, if_neg (by omega)]
  rw [parse?, hdigits, ofGroups?_text]
  rfl

end Uuid

end Calculator
