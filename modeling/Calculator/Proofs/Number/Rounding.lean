import Calculator.Proofs.Number.Nearest
import Mathlib.Data.Nat.Dist
import Mathlib.Tactic.Ring

/-!
# Rounding to the nearest

A quotient is rounded to an integer at most half a step away, and among integers there is no nearer
one. The nearest double is a rounded multiple of the spacing between doubles of its size. Doubles of
a greater size are such multiples as well, and those of a smaller size lie beyond the least multiple
of this size, so no double at all is nearer.
-/

namespace Calculator

variable {num den k : Nat}

/-! ## Integers -/

/-- The rounded quotient is at most half a step away. -/
theorem two_mul_dist_roundHalfEven_le (num : Nat) (hden : 0 < den) :
    2 * Nat.dist (roundHalfEven num den * den) num ≤ den := by
  have hrest : num % den < den := Nat.mod_lt _ hden
  have hnum : num / den * den + num % den = num := Nat.div_add_mod' num den
  unfold roundHalfEven Nat.dist
  dsimp only
  by_cases hlow : 2 * (num % den) < den
  · rw [if_pos hlow]
    omega
  by_cases hhigh : den < 2 * (num % den)
  · rw [if_neg hlow, if_pos hhigh, Nat.add_one_mul (num / den)]
    omega
  · rw [if_neg hlow, if_neg hhigh, Nat.add_mul]
    rcases Nat.mod_two_eq_zero_or_one (num / den) with hparity | hparity
    · rw [hparity]
      omega
    · rw [hparity]
      omega

/-- A quotient halfway between two integers is rounded to the even one. -/
theorem roundHalfEven_mod_two (num : Nat) (hden : 0 < den)
    (htie : 2 * Nat.dist (roundHalfEven num den * den) num = den) :
    roundHalfEven num den % 2 = 0 := by
  have hrest : num % den < den := Nat.mod_lt _ hden
  have hnum : num / den * den + num % den = num := Nat.div_add_mod' num den
  unfold roundHalfEven Nat.dist at htie
  unfold roundHalfEven
  dsimp only at htie ⊢
  by_cases hlow : 2 * (num % den) < den
  · rw [if_pos hlow] at htie
    omega
  by_cases hhigh : den < 2 * (num % den)
  · rw [if_neg hlow, if_pos hhigh, Nat.add_one_mul (num / den)] at htie
    omega
  · rw [if_neg hlow, if_neg hhigh]
    omega

/-- Two multiples of a step are one step apart at least. -/
private theorem le_dist_mul {m : Nat} (hne : k ≠ m) (den : Nat) :
    den ≤ Nat.dist (k * den) (m * den) := by
  unfold Nat.dist
  rcases Nat.lt_or_gt_of_ne hne with hlt | hlt
  · have hle : (k + 1) * den ≤ m * den := Nat.mul_le_mul_right den hlt
    rw [Nat.add_one_mul] at hle
    omega
  · have hle : (m + 1) * den ≤ k * den := Nat.mul_le_mul_right den hlt
    rw [Nat.add_one_mul] at hle
    omega

/-- No integer is nearer to a quotient than the rounded one. -/
theorem dist_roundHalfEven_le (num k : Nat) (hden : 0 < den) :
    Nat.dist (roundHalfEven num den * den) num ≤ Nat.dist (k * den) num := by
  by_cases heq : roundHalfEven num den = k
  · rw [heq]
  · have herror := two_mul_dist_roundHalfEven_le num hden
    have hstep := le_dist_mul heq den
    have htriangle := Nat.dist.triangle_inequality (roundHalfEven num den * den) num (k * den)
    rw [Nat.dist_comm num] at htriangle
    omega

/-- The integer at most half a step away is the rounded quotient, if it is even where it is exactly
half a step away. -/
theorem roundHalfEven_eq (hden : 0 < den) (herror : 2 * Nat.dist (k * den) num ≤ den)
    (heven : 2 * Nat.dist (k * den) num = den → k % 2 = 0) : roundHalfEven num den = k := by
  have hround := two_mul_dist_roundHalfEven_le num hden
  have htie := roundHalfEven_mod_two num hden
  have htriangle := Nat.dist.triangle_inequality (roundHalfEven num den * den) num (k * den)
  rw [Nat.dist_comm num] at htriangle
  by_contra hne
  have hstep := le_dist_mul hne den
  -- both are half a step away, hence even and neighbours
  have hk := heven (by omega)
  have hk' := htie (by omega)
  have htwo := le_dist_mul (k := roundHalfEven num den / 2) (m := k / 2) (by omega) (2 * den)
  rw [← Nat.mul_assoc, ← Nat.mul_assoc, Nat.div_mul_cancel (Nat.dvd_of_mod_eq_zero hk),
    Nat.div_mul_cancel (Nat.dvd_of_mod_eq_zero hk')] at htwo
  omega

/-- A quotient that is not below an integer is not rounded below it. -/
theorem le_roundHalfEven (hden : 0 < den) (hle : k * den ≤ num) : k ≤ roundHalfEven num den := by
  have hquotient : k ≤ num / den := (Nat.le_div_iff_mul_le hden).mpr hle
  unfold roundHalfEven
  dsimp only
  split_ifs <;> omega

/-- A quotient that is not above an integer is not rounded above it. -/
theorem roundHalfEven_le (hden : 0 < den) (hle : num ≤ k * den) : roundHalfEven num den ≤ k := by
  by_contra hlt
  have hstep : (k + 1) * den ≤ roundHalfEven num den * den :=
    Nat.mul_le_mul_right den (by omega)
  have hnear := dist_roundHalfEven_le num k hden
  rw [Nat.add_one_mul] at hstep
  unfold Nat.dist at hnear
  omega

namespace Double

variable {bits significand exponent : Nat}

/-! ## Doubles -/

/-- The units of a significand and an exponent, with a carry into the next exponent or without. -/
theorem unitsOfBits_of_significand (hle : significand ≤ 2 ^ 53)
    (hleading : exponent = 0 ∨ 2 ^ 52 ≤ significand) :
    unitsOfBits (exponent * 2 ^ 52 + significand) = significand * 2 ^ exponent := by
  rcases Nat.lt_or_ge significand (2 ^ 53) with hlt | hge
  · obtain ⟨significand', exponent', hsum, hlt', hleading', hunits⟩ :=
      exists_significand (exponent * 2 ^ 52 + significand)
    obtain ⟨rfl, rfl⟩ : exponent' = exponent ∧ significand' = significand := by omega
    exact hunits
  · obtain rfl : significand = 2 ^ 53 := by omega
    have hfields : (exponent * 2 ^ 52 + 2 ^ 53) / 2 ^ 52 = exponent + 2 ∧
        (exponent * 2 ^ 52 + 2 ^ 53) % 2 ^ 52 = 0 := by omega
    rw [unitsOfBits]
    rw [hfields.1, hfields.2, if_neg (by omega), Nat.add_zero, Nat.add_sub_assoc (by decide),
      Nat.add_comm exponent, Nat.pow_add, ← Nat.mul_assoc]
    rfl

/-- The nearest double is a quotient rounded at its last bit, where it has 53 bits, or less at the
last of all places. -/
theorem exists_rounded (num : Nat) (hden : 0 < den) : ∃ exponent,
    let significand := roundHalfEven (num * one) (den * 2 ^ exponent)
    nearestBits num den = min (exponent * 2 ^ 52 + significand) infinityBits ∧
      significand ≤ 2 ^ 53 ∧ num * one < den * 2 ^ (53 + exponent) ∧
      (exponent = 0 ∨ den * 2 ^ (52 + exponent) ≤ num * one) := by
  refine ⟨(num * one / den).log2 - 52, ?_⟩
  generalize hexponent : (num * one / den).log2 - 52 = exponent
  have hstep : 0 < den * 2 ^ exponent := Nat.mul_pos hden (Nat.two_pow_pos _)
  have hlt : num * one < den * 2 ^ (53 + exponent) := by
    rw [Nat.mul_comm den, ← Nat.div_lt_iff_lt_mul hden]
    exact Nat.lt_of_lt_of_le Nat.lt_log2_self (Nat.pow_le_pow_right (by decide) (by omega))
  refine ⟨by rw [nearestBits, hexponent], ?_, hlt, ?_⟩
  · apply roundHalfEven_le hstep
    rw [Nat.mul_left_comm, ← Nat.pow_add]
    exact Nat.le_of_lt hlt
  · by_cases hzero : exponent = 0
    · exact .inl hzero
    · right
      have hne : num * one / den ≠ 0 := by
        intro h
        rw [h, Nat.log2_zero] at hexponent
        omega
      rw [Nat.mul_comm den, ← Nat.le_div_iff_mul_le hden]
      rw [← Nat.le_log2 hne]
      omega

/-- **No double is nearer to a quotient than the nearest one**, unless that is infinite. -/
theorem dist_nearestBits_le (num bits : Nat) (hden : 0 < den)
    (hfinite : nearestBits num den < infinityBits) :
    Nat.dist (unitsOfBits (nearestBits num den) * den) (num * one) ≤
      Nat.dist (unitsOfBits bits * den) (num * one) := by
  obtain ⟨exponent, hnearest, hle, -, hlarge⟩ := exists_rounded num hden
  generalize hsignificand : roundHalfEven (num * one) (den * 2 ^ exponent) = significand
    at hnearest hle
  have hstep : 0 < den * 2 ^ exponent := Nat.mul_pos hden (Nat.two_pow_pos _)
  have hleading : exponent = 0 ∨ 2 ^ 52 ≤ significand := by
    refine hlarge.imp_right fun h => ?_
    rw [← hsignificand]
    apply le_roundHalfEven hstep
    rwa [Nat.mul_left_comm, ← Nat.pow_add]
  have hunits : unitsOfBits (nearestBits num den) * den = significand * (den * 2 ^ exponent) := by
    rw [hnearest, Nat.min_eq_left (by omega), unitsOfBits_of_significand hle hleading,
      Nat.mul_assoc, Nat.mul_comm (2 ^ exponent)]
  have hnear (multiple : Nat) : Nat.dist (unitsOfBits (nearestBits num den) * den) (num * one) ≤
      Nat.dist (multiple * (den * 2 ^ exponent)) (num * one) := by
    rw [hunits, ← hsignificand]
    exact dist_roundHalfEven_le _ multiple hstep
  obtain ⟨significand', exponent', -, hlt', -, hunits'⟩ := exists_significand bits
  rw [hunits']
  by_cases hsize : exponent ≤ exponent'
  · -- the other double is a multiple of the same spacing
    have hmultiple : significand' * 2 ^ exponent' * den =
        significand' * 2 ^ (exponent' - exponent) * (den * 2 ^ exponent) := by
      rw [← Nat.sub_add_cancel hsize, Nat.pow_add, Nat.add_sub_cancel]
      ring
    rw [hmultiple]
    exact hnear _
  · -- the other double is below all multiples of this size, and the quotient is not
    have hbelow : significand' * 2 ^ exponent' ≤ 2 ^ (52 + exponent) :=
      calc significand' * 2 ^ exponent' ≤ 2 ^ 53 * 2 ^ exponent' :=
            Nat.mul_le_mul_right _ (Nat.le_of_lt hlt')
        _ = 2 ^ (53 + exponent') := (Nat.pow_add ..).symm
        _ ≤ 2 ^ (52 + exponent) := Nat.pow_le_pow_right (by decide) (by omega)
    have hlower : significand' * 2 ^ exponent' * den ≤ den * 2 ^ (52 + exponent) := by
      rw [Nat.mul_comm den]
      exact Nat.mul_le_mul_right den hbelow
    have hquotient := hlarge.resolve_left (by omega)
    have hpower := hnear (2 ^ 52)
    rw [Nat.mul_left_comm, ← Nat.pow_add] at hpower
    unfold Nat.dist at hpower ⊢
    omega

end Double

end Calculator
