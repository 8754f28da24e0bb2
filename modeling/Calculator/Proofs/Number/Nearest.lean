import Calculator.Number.Shortest
import Mathlib.Algebra.Group.Nat.Defs

/-!
# The shortest text reads back

Rounding to the nearest double depends on the quotient alone, so a decimal may be reduced before it
is rounded, and it keeps every number that is a double already. The shortest decimal of a magnitude
is found on a grid by reading it back, or is the exact one, so in both cases it reads back.
-/

namespace Calculator

theorem roundHalfEven_mul_left {k : Nat} (hk : 0 < k) (num den : Nat) :
    roundHalfEven (k * num) (k * den) = roundHalfEven num den := by
  have hlt (a b : Nat) : (2 * (k * a) < k * b) = (2 * a < b) := by
    rw [Nat.mul_left_comm, Nat.mul_lt_mul_left hk]
  have hgt (a b : Nat) : (k * b < 2 * (k * a)) = (b < 2 * a) := by
    rw [Nat.mul_left_comm, Nat.mul_lt_mul_left hk]
  simp only [roundHalfEven, Nat.mul_div_mul_left _ _ hk, Nat.mul_mod_mul_left, hlt, hgt]

/-- A quotient that is whole is not rounded. -/
theorem roundHalfEven_mul_right (n : Nat) {den : Nat} (hden : 0 < den) :
    roundHalfEven (n * den) den = n := by
  simp [roundHalfEven, hden]

namespace Double

/-- The unit as a power of two whose exponent is kept apart, so that it is never multiplied out. -/
theorem exists_one_eq : ∃ exponent, exponent = 1074 ∧ one = 2 ^ exponent := by
  rw [one]
  generalize 1074 = exponent
  exact ⟨exponent, rfl, rfl⟩

/-- The nearest double depends on the quotient alone. -/
theorem nearestBits_mul_left {k : Nat} (hk : 0 < k) (num den : Nat) :
    nearestBits (k * num) (k * den) = nearestBits num den := by
  simp only [nearestBits, Nat.mul_assoc, Nat.mul_div_mul_left _ _ hk,
    roundHalfEven_mul_left hk]

/-- The bits of a magnitude are a significand of at most 53 bits and an exponent, which is zero
unless the leading bit is set. -/
theorem exists_significand (bits : Nat) : ∃ significand exponent,
    bits = exponent * 2 ^ 52 + significand ∧ significand < 2 ^ 53 ∧
      (exponent = 0 ∨ 2 ^ 52 ≤ significand) ∧
      unitsOfBits bits = significand * 2 ^ exponent := by
  refine ⟨bits - (bits / 2 ^ 52 - 1) * 2 ^ 52, bits / 2 ^ 52 - 1, by omega, by omega, by omega, ?_⟩
  simp only [unitsOfBits]
  split
  · rename_i hzero
    rw [hzero]
    simp only [Nat.zero_sub, Nat.zero_mul, Nat.sub_zero, Nat.pow_zero, Nat.mul_one]
    omega
  · congr 1
    omega

/-- The exponent of a magnitude is read off the number of its units. -/
theorem log2_mul_two_pow {significand exponent : Nat} (hlt : significand < 2 ^ 53)
    (hle : exponent = 0 ∨ 2 ^ 52 ≤ significand) :
    (significand * 2 ^ exponent).log2 - 52 = exponent := by
  rcases hle with rfl | hle
  · have hlog : significand.log2 < 53 := by
      rcases Nat.eq_zero_or_pos significand with rfl | hpos
      · decide
      · exact (Nat.log2_lt (by omega)).mpr hlt
    rw [Nat.pow_zero, Nat.mul_one]
    omega
  · have hpow : 0 < 2 ^ exponent := Nat.two_pow_pos exponent
    have hne : significand * 2 ^ exponent ≠ 0 := Nat.mul_ne_zero (by omega) (by omega)
    have hlog : (significand * 2 ^ exponent).log2 = 52 + exponent := by
      rw [Nat.log2_eq_iff hne]
      constructor
      · rw [Nat.pow_add]
        exact Nat.mul_le_mul_right _ hle
      · rw [show 52 + exponent + 1 = 53 + exponent by omega, Nat.pow_add]
        exact Nat.mul_lt_mul_of_pos_right hlt hpow
    omega

/-- A quotient that is a finite magnitude is not rounded. -/
theorem nearestBits_of_exact {bits num den : Nat} (hden : 0 < den) (hbits : bits < infinityBits)
    (hexact : num * one = unitsOfBits bits * den) : nearestBits num den = bits := by
  obtain ⟨significand, exponent, hsum, hlt, hle, hunits⟩ := exists_significand bits
  have hexponent : (num * one / den).log2 - 52 = exponent := by
    rw [hexact, Nat.mul_div_cancel _ hden, hunits, log2_mul_two_pow hlt hle]
  have hround : roundHalfEven (num * one) (den * 2 ^ exponent) = significand := by
    rw [hexact, hunits, Nat.mul_assoc, Nat.mul_comm (2 ^ exponent)]
    exact roundHalfEven_mul_right _ (Nat.mul_pos hden (Nat.two_pow_pos exponent))
  simp only [nearestBits, hexponent, hround, ← hsum]
  exact Nat.min_eq_left (Nat.le_of_lt hbits)

end Double

namespace Decimal

/-- Dropping zeros at the end of the places changes no rounding. -/
theorem bits_reduced (places coefficient : Nat) :
    (reduced places coefficient).bits = Double.nearestBits coefficient (10 ^ places) := by
  induction places generalizing coefficient with
  | zero => rfl
  | succ places ih =>
    rw [reduced]
    split
    · rename_i hzero
      have hcoefficient : 10 * (coefficient / 10) = coefficient := by omega
      have hscaled := Double.nearestBits_mul_left (k := 10) (by decide) (coefficient / 10)
        (10 ^ places)
      rw [ih, Nat.pow_succ', ← hscaled, hcoefficient]
    · rfl

/-- The nearest double is the one with the nearest bits. -/
theorem toFloat_eq_ofBits (d : Decimal) : d.toFloat = Float.ofBits (UInt64.ofNat d.bits) := by
  rw [toFloat, Double.nearest, bits, if_neg (by decide), Nat.add_zero]

end Decimal

namespace Double

theorem bits_gridPoint (count zeros : Nat) :
    (gridPoint count zeros).bits = nearestBits (count * 10 ^ zeros) gridSteps :=
  Decimal.bits_reduced _ _

/-- A neighbour is taken only if it reads back. -/
theorem bits_of_neighbour? {bits zeros : Nat} {d : Decimal} (h : neighbour? bits zeros = some d) :
    d.bits = bits := by
  simp only [neighbour?] at h
  split at h
  · rename_i hlower
    cases h
    rw [Bool.and_eq_true, beq_iff_eq] at hlower
    rw [bits_gridPoint]
    exact hlower.1
  · split at h
    · rename_i hupper
      cases h
      rw [beq_iff_eq] at hupper
      rw [bits_gridPoint]
      exact hupper
    · cases h

/-- The exact decimal of a magnitude reads back, with as many places as one has halves. -/
theorem bits_exact {bits places : Nat} (hbits : bits < infinityBits) (hone : one = 2 ^ places) :
    (Decimal.reduced places (unitsOfBits bits * 5 ^ places)).bits = bits := by
  rw [Decimal.bits_reduced]
  refine nearestBits_of_exact (Nat.pow_pos (by decide)) hbits ?_
  rw [hone, Nat.mul_assoc, ← Nat.mul_pow]

theorem bits_shortestBelow {bits : Nat} (hbits : bits < infinityBits) (zeros : Nat) :
    (shortestBelow bits zeros).bits = bits := by
  induction zeros with
  | zero =>
    obtain ⟨places, hplaces, hone⟩ := exists_one_eq
    rw [shortestBelow, ← hplaces]
    exact bits_exact hbits hone
  | succ zeros ih =>
    rw [shortestBelow]
    cases hneighbour : neighbour? bits zeros with
    | none => exact ih
    | some d => exact bits_of_neighbour? hneighbour

/-- **The shortest decimal of a finite magnitude reads back to it.** -/
theorem bits_shortest {bits : Nat} (hbits : bits < infinityBits) : (shortest bits).bits = bits :=
  bits_shortestBelow hbits _

end Double

end Calculator
