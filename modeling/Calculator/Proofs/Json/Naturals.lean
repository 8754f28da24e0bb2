import Calculator.Json.Fields
import Calculator.Proofs.Json.Numbers
import Calculator.Proofs.Number.Integers

/-!
# Natural numbers in JSON

A natural number is written with its digits, and these are read as the number. A number with 64 bits
is read as a double as well: it is scaled by one, so the double is the nearest one and not infinite.
-/

namespace Calculator

namespace Double

open Float.Model (Format)
open Float.Model.UnpackedFloat

variable {x y : Float} {s : Sign} {m bits : Nat} {e : Int}

/-- The mantissa of a magnitude with its leading bit. -/
def normalMantissa (bits : Nat) : Nat := 2 ^ 52 + bits % 2 ^ 52

theorem isNormal_normalMantissa (bits : Nat) : IsNormal (normalMantissa bits) := by
  unfold IsNormal normalMantissa
  omega

/-- A magnitude whose exponent is not the least one has a mantissa of 53 bits. -/
theorem view_ofBits (hle : 2 ^ 52 ≤ bits) (hlt : bits < infinityBits) :
    view (Float.ofBits (UInt64.ofNat bits)) = .finite .positive (normalMantissa bits)
      ((bits / 2 ^ 52 : Nat) - 1075) (isNormal_normalMantissa bits).pos := by
  have hm := isNormal_normalMantissa bits
  have hbiased : ((bits / 2 ^ 52 : Nat) : Int) - 1075 + 1075 = (bits / 2 ^ 52 : Nat) := by omega
  have hexponent : 0 < bits / 2 ^ 52 ∧ bits / 2 ^ 52 < 2047 := by
    rw [infinityBits] at hlt
    omega
  have hpacked : (UInt64.ofNat bits).toBitVec = packComponents Format.binary64 .positive
      (BitVec.ofNat 11 (bits / 2 ^ 52)) (BitVec.ofNat 52 (normalMantissa bits)) := by
    rw [← BitVec.toNat_inj, toNat_packComponents, UInt64.toNat_toBitVec, UInt64.toNat_ofNat',
      normalMantissa]
    simp only [Sign.toBitVec, BitVec.toNat_ofNat]
    omega
  rw [view, toBits_ofBits, hpacked, unpack_of_isNormal .positive hm hbiased hexponent.1 hexponent.2,
    pack_of_isNormal .positive hm hbiased hexponent.2,
    unpack_of_isNormal .positive hm hbiased hexponent.1 hexponent.2]

/-- The number one has the least mantissa. -/
theorem view_one : view (nearest false 1 1) = .finite .positive (2 ^ 52) (-52) (by decide) := by
  have hunits : unitsOfBits ((1 + 1021) * 2 ^ 52 + 2 ^ 52) = 1 * one :=
    unitsOfBits_of_isNormal ⟨by decide, by decide⟩ (by decide)
  have hbits : nearestBits 1 1 = (1 + 1021) * 2 ^ 52 + 2 ^ 52 :=
    nearestBits_of_exact Nat.one_pos (by decide) (by rw [hunits, Nat.mul_one])
  have hone : nearest false 1 1 = Float.ofBits (UInt64.ofNat (nearestBits 1 1)) :=
    Decimal.toFloat_eq_ofBits ⟨1, 0⟩
  rw [hone, hbits]
  exact view_ofBits (by decide) (by decide)

/-- Multiplying by one changes nothing. -/
theorem mul_one_of_isNormal (hm : IsNormal m) (he : -1074 ≤ e)
    (hx : view x = .finite s m e hm.pos) : x * nearest false 1 1 = x := by
  have hsign : s * Sign.positive = s := by cases s <;> rfl
  have hround := roundWithAccuracy_of_exact s hm he 52
  apply eq_of_toBitVec
  rw [toBits_mul, view_one, ← pack_view x, hx, mul, hsign]
  exact congrArg (pack Format.binary64) hround

theorem IsInteger.isInf_eq_false {n : Int} (h : IsInteger x n) : x.isInf = false := by
  change (view x).isInf = false
  cases h with
  | zero hx _ =>
    obtain ⟨t, ht⟩ := hx
    rw [ht]
    rfl
  | normal _ _ hx _ =>
    rw [hx]
    rfl

/-- The double nearest to a positive number is not so small that its leading bit is lost. -/
theorem le_nearestBits {k : Nat} (hpos : 0 < k) : 2 ^ 52 ≤ nearestBits k 1 := by
  obtain ⟨exponent, hnearest, -, hlarge, -⟩ := exists_rounded k Nat.one_pos
  obtain ⟨places, hplaces, hone⟩ := exists_one_eq
  have hexponent : places < 53 + exponent := by
    rw [Nat.one_mul, hone] at hlarge
    exact (Nat.pow_lt_pow_iff_right (by decide)).mp
      (Nat.lt_of_le_of_lt (Nat.le_mul_of_pos_left _ hpos) hlarge)
  rw [hnearest, infinityBits]
  omega

/-- A number with 64 bits times one is not infinite. -/
theorem isInf_nearest_mul_one {k : Nat} (hle : k ≤ 2 ^ 64) :
    (nearest false k 1 * nearest false 1 1).isInf = false := by
  rcases Nat.eq_zero_or_pos k with rfl | hpos
  · exact ((isInteger_toFloat (k := 0) (by decide)).mul (isInteger_toFloat (k := 1) (by decide))
      (by decide)).isInf_eq_false
  · have hnormal := le_nearestBits hpos
    have hview := view_ofBits hnormal (nearestBits_lt_infinityBits Nat.one_pos (by omega))
    have hx : nearest false k 1 = Float.ofBits (UInt64.ofNat (nearestBits k 1)) :=
      Decimal.toFloat_eq_ofBits ⟨k, 0⟩
    rw [← hx] at hview
    rw [mul_one_of_isNormal (isNormal_normalMantissa _) (by omega) hview]
    change (view _).isInf = false
    rw [hview]
    rfl

end Double

namespace Numeral

variable {n : Nat}

/-- The digits of a number have no zeros before them. -/
theorem isWellFormed_ofNat (n : Nat) : (ofNat n).IsWellFormed where
  whole_ne_nil := Nat.toDigits_ne_nil
  whole_digits := fun _ hc => Nat.isDigit_of_mem_toDigits (by decide) (by decide) hc
  leading_zero := (Decimal.isWritten_toDigits n).leading
  fraction_digits := List.forall_mem_nil _
  exponent_digits := List.forall_mem_nil _
  lowers_exponent := fun _ => rfl

/-- The digits of a number are read as the number. -/
theorem toNat?_ofNat {width : Nat} (hn : n < 2 ^ width) : (ofNat n).toNat? width = some n := by
  have hvalue : Nat.ofDigitChars 10 (ofNat n).whole 0 = n := Nat.ofDigitChars_ten_toDigits
  simp only [toNat?, hvalue, if_pos hn]
  rfl

theorem le_ofDigitChars (value : Nat) (digits : Text) :
    value ≤ Nat.ofDigitChars 10 digits value := by
  induction digits generalizing value with
  | nil => exact Nat.le_refl value
  | cons c digits ih =>
    rw [Nat.ofDigitChars_cons]
    have hle := ih (10 * value + (c.toNat - '0'.toNat))
    omega

/-- Digits are appended to the last one if the number has 64 bits. -/
theorem accumulate_eq {value : Nat} {digits : Text}
    (hlt : Nat.ofDigitChars 10 digits value < 2 ^ 64) :
    accumulate value digits = (Nat.ofDigitChars 10 digits value, 0) := by
  induction digits generalizing value with
  | nil => rfl
  | cons c digits ih =>
    rw [Nat.ofDigitChars_cons] at hlt ⊢
    have hmore : value * 10 + (c.toNat - '0'.toNat) = 10 * value + (c.toNat - '0'.toNat) := by
      rw [Nat.mul_comm]
    have hle := le_ofDigitChars (10 * value + (c.toNat - '0'.toNat)) digits
    simp only [accumulate, hmore, if_pos (Nat.lt_of_le_of_lt hle hlt), ih hlt]

/-- A number with 64 bits is read as a double. -/
theorem isSome_toFloat?_ofNat (hn : n < 2 ^ 64) : (ofNat n).toFloat?.isSome = true := by
  have hvalue : Nat.ofDigitChars 10 (Text.ofNat n) 0 = n := Nat.ofDigitChars_ten_toDigits
  have hdigits : accumulate 0 (Text.ofNat n) = (n, 0) := by
    rw [accumulate_eq (by rwa [hvalue]), hvalue]
  have hfinite : (Double.nearest false n 1 * powerOfTen 0).isInf = false :=
    Double.isInf_nearest_mul_one hn.le
  have hscale : scale n 0 = some (Double.nearest false n 1 * powerOfTen 0) := by
    simp [scale, hfinite]
  simp [toFloat?, ofNat, hdigits, accumulate, hscale]

end Numeral

end Calculator
