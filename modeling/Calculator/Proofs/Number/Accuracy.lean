import Calculator.Proofs.Display
import Calculator.Proofs.Number.Stability
import Calculator.Proofs.Number.Trimming
import Mathlib.Data.Rat.Cast.Order
import Mathlib.Tactic.FieldSimp
import Mathlib.Tactic.Linarith

/-!
# What a displayed number denotes

A double that is whole is displayed as the nearest integer with 64 bits. Any other one is displayed
as the multiple of a power of ten that is nearest to it, of two as near the one with an even last
digit. Both are compared as rational numbers: the display through its digits, the double through its
units.
-/

namespace Calculator

variable {places units : ℕ} {negative : Bool} {x : ℚ} {m : ℤ}

/-! ## Rational numbers -/

/-- The number of a decimal. -/
def Decimal.toRat (d : Decimal) : ℚ := d.coefficient / 10 ^ d.places

/-- The number of a finite double, and zero for any other. -/
def Double.toRat : Double → ℚ
  | .finite negative units => (if negative then -1 else 1) * (units / one)
  | _ => 0

/-- The number that digits with a point among them denote, after a minus sign or none. -/
def Display.denoted : Text → ℚ
  | '-' :: digits => -(Decimal.ofNumeral digits).toRat
  | digits => (Decimal.ofNumeral digits).toRat

/-- Dropping zeros at the end of the places does not change the number. -/
theorem Decimal.toRat_reduced (places coefficient : ℕ) :
    (reduced places coefficient).toRat = coefficient / 10 ^ places := by
  induction places generalizing coefficient with
  | zero => rfl
  | succ places ih =>
    rw [reduced]
    split
    · rename_i hzero
      have hcoefficient : ((10 * (coefficient / 10) : ℕ) : ℚ) = coefficient := by
        congr 1
        omega
      rw [ih, ← hcoefficient, Nat.cast_mul, pow_succ', Nat.cast_ofNat,
        mul_div_mul_left _ _ (by norm_num)]
    · rfl

theorem Display.denoted_text (d : Decimal) : denoted d.text = d.toRat := by
  have hunsigned : denoted d.text = (Decimal.ofNumeral d.text).toRat := by
    unfold denoted
    split
    · rename_i digits htext
      have hdash := d.isNumeral_text.numeric '-' (by simp [htext])
      exact absurd hdash (by decide)
    · rfl
  rw [hunsigned, Decimal.ofNumeral_text]

/-- A decimal after its sign denotes its number with this sign. -/
theorem Display.denoted_signed (negative : Bool) (d : Decimal) :
    denoted (Text.signed negative d) = (if negative then -1 else 1) * d.toRat := by
  unfold Text.signed
  by_cases hsign : (negative && d.coefficient != 0) = true
  · obtain ⟨rfl, -⟩ := Bool.and_eq_true_iff.mp hsign
    rw [if_pos hsign, if_pos rfl, neg_one_mul]
    change -(Decimal.ofNumeral d.text).toRat = _
    rw [Decimal.ofNumeral_text]
  · rw [if_neg hsign, List.nil_append, denoted_text]
    cases negative with
    | false => simp
    | true =>
      have hzero : d.toRat = 0 := by
        have hcoefficient : d.coefficient = 0 := by simpa using hsign
        rw [Decimal.toRat, hcoefficient, Nat.cast_zero, zero_div]
      rw [hzero, mul_zero]

/-! ## Rounding -/

/-- A multiple of `10^-places` that is nearest to a number, and whose last digit is even if another
one is as near. -/
structure IsRounded (places : ℕ) (x : ℚ) (m : ℤ) : Prop where
  nearest : ∀ k : ℤ, |x - m / 10 ^ places| ≤ |x - k / 10 ^ places|
  even : ∀ k : ℤ, k ≠ m → |x - k / 10 ^ places| = |x - m / 10 ^ places| → Even m

/-- A multiple at most half a step away is nearest. -/
theorem IsRounded.of_half_step (herror : 2 * |x - m / 10 ^ places| ≤ 1 / 10 ^ places)
    (heven : 2 * |x - m / 10 ^ places| = 1 / 10 ^ places → Even m) : IsRounded places x m := by
  have hstep (k : ℤ) (hk : k ≠ m) :
      1 / 10 ^ places ≤ |x - m / 10 ^ places| + |x - k / 10 ^ places| := by
    have hone : 1 ≤ |((m - k : ℤ) : ℚ)| := by
      rw [← Int.cast_abs]
      exact_mod_cast Int.one_le_abs (sub_ne_zero.mpr hk.symm)
    calc (1 : ℚ) / 10 ^ places ≤ |((m - k : ℤ) : ℚ)| / 10 ^ places := by gcongr
      _ = |(m : ℚ) / 10 ^ places - k / 10 ^ places| := by
        rw [← sub_div, abs_div, abs_of_pos (by positivity : (0 : ℚ) < 10 ^ places), Int.cast_sub]
      _ ≤ |m / 10 ^ places - x| + |x - k / 10 ^ places| := abs_sub_le _ _ _
      _ = _ := by rw [abs_sub_comm]
  constructor
  · intro k
    by_cases hk : k = m
    · rw [hk]
    · have hfar := hstep k hk
      linarith
  · intro k hk htie
    have hfar := hstep k hk
    exact heven (by linarith)

/-- Rounding does not depend on the sign. -/
theorem IsRounded.neg (h : IsRounded places x m) : IsRounded places (-x) (-m) := by
  have hdist (k : ℤ) : |-x - k / 10 ^ places| = |x - (-k : ℤ) / 10 ^ places| := by
    rw [← abs_neg, Int.cast_neg]
    ring_nf
  constructor
  · intro k
    rw [hdist, hdist, neg_neg]
    exact h.nearest _
  · intro k hk htie
    rw [hdist, hdist, neg_neg] at htie
    exact (h.even _ (by omega) htie).neg

theorem cast_dist (a b : ℕ) : (Nat.dist a b : ℚ) = |(a : ℚ) - b| := by
  rcases Nat.le_total a b with hle | hle
  · rw [Nat.dist_eq_sub_of_le hle, Nat.cast_sub hle, abs_sub_comm,
      abs_of_nonneg (sub_nonneg.mpr (Nat.cast_le.mpr hle))]
  · rw [Nat.dist_eq_sub_of_le_right hle, Nat.cast_sub hle,
      abs_of_nonneg (sub_nonneg.mpr (Nat.cast_le.mpr hle))]

/-- The quotient of whole units is rounded to the nearest multiple. -/
theorem isRounded_roundHalfEven (places num : ℕ) {den : ℕ} (hden : 0 < den) :
    IsRounded places (num / den) (roundHalfEven (num * 10 ^ places) den) := by
  have herror := two_mul_dist_roundHalfEven_le (num * 10 ^ places) hden
  have htie := roundHalfEven_mod_two (num * 10 ^ places) hden
  generalize roundHalfEven (num * 10 ^ places) den = coefficient at herror htie
  have hden : (0 : ℚ) < den := Nat.cast_pos.mpr hden
  -- as a multiple of the unit that the quotient and the multiples of `10^-places` share
  have herror_eq : |(num / den : ℚ) - (coefficient : ℤ) / 10 ^ places| =
      Nat.dist (coefficient * den) (num * 10 ^ places) / (den * 10 ^ places) := by
    have hunits : (num / den : ℚ) - (coefficient : ℤ) / 10 ^ places =
        ((num * 10 ^ places : ℕ) - (coefficient * den : ℕ)) / (den * 10 ^ places) := by
      push_cast
      field_simp
    rw [hunits, abs_div, abs_of_pos (by positivity : (0 : ℚ) < den * 10 ^ places), cast_dist,
      abs_sub_comm]
  have hstep : (1 : ℚ) / 10 ^ places = den / (den * 10 ^ places) := by field_simp
  apply IsRounded.of_half_step
  · rw [herror_eq, hstep, ← mul_div_assoc]
    gcongr
    exact_mod_cast herror
  · intro hhalf
    rw [herror_eq, hstep, ← mul_div_assoc, div_left_inj' (by positivity)] at hhalf
    rw [Int.even_coe_nat, Nat.even_iff]
    exact htie (by exact_mod_cast hhalf)

/-! ## Doubles -/

namespace Double

/-- A whole double is the integer that its units make. -/
theorem toRat_eq_intCast_iff {n : ℤ} : toRat (.finite negative units) = n ↔
    units % one = 0 ∧ n = (if negative then -1 else 1) * (units / one : ℕ) := by
  have hone := one_pos
  rw [toRat]
  generalize one = den at hone ⊢
  have hden : (den : ℚ) ≠ 0 := Nat.cast_ne_zero.mpr hone.ne'
  constructor
  · intro h
    have hcount : n.natAbs * den = units := by
      have hmagnitude : |(units / den : ℚ)| = |(n : ℚ)| := by
        rw [← h]
        cases negative <;> simp
      rw [abs_of_nonneg (by positivity), div_eq_iff hden, ← Int.cast_abs, Int.abs_eq_natAbs]
        at hmagnitude
      exact_mod_cast hmagnitude.symm
    subst hcount
    refine ⟨Nat.mul_mod_left _ _, ?_⟩
    rw [Nat.mul_div_cancel _ hone]
    rw [Nat.cast_mul, mul_div_cancel_right₀ _ hden] at h
    apply Int.cast_injective (α := ℚ)
    rw [← h, Int.cast_mul, Int.cast_natCast]
    push_cast
    rfl
  · rintro ⟨hwhole, rfl⟩
    rw [Int.cast_mul, Int.cast_natCast, Nat.cast_div (Nat.dvd_of_mod_eq_zero hwhole) hden]
    push_cast
    rfl

/-- A finite double is rounded as its magnitude is, with its sign. -/
theorem isRounded_toRat (places : ℕ) (negative : Bool) (units : ℕ) :
    IsRounded places (toRat (.finite negative units))
      ((if negative then -1 else 1) * roundHalfEven (units * 10 ^ places) one) := by
  have hmagnitude := isRounded_roundHalfEven places units one_pos
  rw [toRat]
  generalize roundHalfEven (units * 10 ^ places) one = coefficient at hmagnitude ⊢
  generalize (units / one : ℚ) = x at hmagnitude ⊢
  cases negative with
  | false => simpa using hmagnitude
  | true => simpa using hmagnitude.neg

end Double

/-! ## Displays -/

/-- At most the wanted places are left. -/
theorem Decimal.places_reduced_le (places coefficient : ℕ) :
    (reduced places coefficient).places ≤ places := by
  induction places generalizing coefficient with
  | zero => rfl
  | succ places ih =>
    rw [reduced]
    split
    · exact Nat.le_succ_of_le (ih _)
    · rfl

theorem Double.places_shown_le (places : ℕ) (negative : Bool) (units : ℕ) :
    (shown places negative units).places ≤ places := by
  unfold shown
  split
  · exact Nat.zero_le _
  · exact Decimal.places_reduced_le _ _

theorem Display.IsNumber.ne_minus_zero {s : Text} (h : IsNumber s) : s ≠ "-0".toList := by
  obtain ⟨negative, hwhole, -, hzero⟩ := h
  rename_i whole fraction
  obtain ⟨c, rest, rfl⟩ := List.exists_cons_of_ne_nil hwhole.nonempty
  intro heq
  cases negative with
  | false =>
    have heq : c :: (rest ++ fraction) = ['-', '0'] := heq
    have hdash := hwhole.not_mem (c := '-') (by decide)
    rw [(List.cons.inj heq).1] at hdash
    exact hdash List.mem_cons_self
  | true =>
    have heq : '-' :: c :: (rest ++ fraction) = ['-', '0'] := heq
    obtain ⟨rfl, hrest⟩ := List.cons.inj (List.cons.inj heq).2
    obtain ⟨rfl, rfl⟩ := List.append_eq_nil_iff.mp hrest
    exact hzero rfl ⟨rfl, rfl⟩

namespace Text

/-- Only the places of the decimal come after a point. -/
theorem length_le_of_signed_eq {d : Decimal} {whole fraction : Text}
    (h : signed negative d = whole ++ '.' :: fraction) : fraction.length ≤ d.places := by
  have hsign : '.' ∉ (if negative && d.coefficient != 0 then ['-'] else [] : Text) := by
    split <;> simp
  have hdigits : '.' ∉ d.paddedDigits := fun hmem => by
    simpa [Decimal.point_not_isDigit] using d.paddedDigits_isDigit _ hmem
  have hlength := d.paddedDigits_length
  rw [signed, Decimal.text_eq] at h
  generalize (if negative && d.coefficient != 0 then ['-'] else [] : Text) = sign at hsign h
  split at h
  · have hpoint : '.' ∈ whole ++ '.' :: fraction := by simp
    rw [← h] at hpoint
    exact ((List.mem_append.mp hpoint).elim hsign hdigits).elim
  · rw [← List.append_assoc, List.append_eq_append_iff] at h
    obtain ⟨front, -, hfraction⟩ | ⟨back, hwhole, hfraction⟩ := h
    · have hcount := congrArg List.length hfraction
      simp only [List.length_cons, List.length_drop, List.length_append] at hcount
      omega
    · cases back with
      | nil =>
        rw [(List.cons.inj hfraction).2, List.length_drop]
        omega
      | cons c back =>
        have hmem : c ∈ whole ++ c :: back := by simp
        rw [← hwhole, ← (List.cons.inj hfraction).1] at hmem
        exact ((List.mem_append.mp hmem).elim hsign
          (hdigits ∘ List.mem_of_mem_take)).elim

theorem denoted_ofRounded_of_whole {n : ℤ} (h : (Double.finite negative units).toRat = n) :
    Display.denoted (ofRounded places (.finite negative units)) =
      (max (-2 ^ 63) (min n (2 ^ 63 - 1)) : ℤ) := by
  obtain ⟨hwhole, hn⟩ := Double.toRat_eq_intCast_iff.mp h
  rw [ofRounded_eq, Display.denoted_signed, Double.shown, if_pos hwhole, Decimal.toRat, pow_zero,
    div_one]
  generalize units / Double.one = count at hn
  have hclamp : (max (-2 ^ 63) (min n (2 ^ 63 - 1)) : ℤ) =
      (if negative then -1 else 1) * (min count (Double.greatestWhole negative) : ℕ) := by
    rw [hn]
    cases negative with
    | false =>
      change max (-2 ^ 63) (min (1 * (count : ℤ)) (2 ^ 63 - 1)) = 1 * (min count (2 ^ 63 - 1) : ℕ)
      omega
    | true =>
      change max (-2 ^ 63) (min (-1 * (count : ℤ)) (2 ^ 63 - 1)) = -1 * (min count (2 ^ 63) : ℕ)
      omega
  rw [hclamp, Int.cast_mul, Int.cast_natCast]
  push_cast
  rfl

theorem denoted_ofRounded_of_not_whole (hwhole : units % Double.one ≠ 0) :
    Display.denoted (ofRounded places (.finite negative units)) =
      ((if negative then -1 else 1) * roundHalfEven (units * 10 ^ places) Double.one : ℤ) /
        10 ^ places := by
  rw [ofRounded_eq, Display.denoted_signed, Double.shown, if_neg hwhole, Double.rounded,
    Decimal.toRat_reduced]
  push_cast
  ring

/-- A decimal without places is written as an integer. -/
theorem signed_whole (negative : Bool) (count : ℕ) : signed negative ⟨count, 0⟩ =
    (toString ((if negative then -1 else 1) * count : ℤ)).toList := by
  have hmagnitude : ((if negative then -1 else 1) * count : ℤ).natAbs = count := by
    cases negative <;> simp
  have hnegative : (negative && count != 0) = true ↔
      ((if negative then -1 else 1) * count : ℤ) < 0 := by
    cases negative with
    | false => simp
    | true => simp [Nat.pos_iff_ne_zero]
  rw [signed, Decimal.text_of_whole, Radix.toList_toString, hmagnitude, Text.ofNat]
  by_cases hsign : (negative && count != 0) = true
  · rw [if_pos hsign, if_pos (hnegative.mp hsign)]
  · rw [if_neg hsign, if_neg (mt hnegative.mpr hsign)]

/-- **A displayed number is what it displays, rounded.** It is in written form. A whole double is
displayed as the nearest integer with 64 bits. Any other one is displayed as the nearest multiple
of `10^-places`, with an even last digit if two are equally near. -/
theorem ofRounded_accurate {x : Float} (hx : Double.ofFloat x = .finite negative units)
    (places : ℕ) :
    let display := ofRounded places (Double.ofFloat x)
    let value := (Double.ofFloat x).toRat
    (Display.IsNumber display ∧ display ≠ "-0".toList ∧
      ∀ whole fraction, display = whole ++ '.' :: fraction → fraction.length ≤ places) ∧
    (∀ n : ℤ, value = n →
      Display.denoted display = (max (-2 ^ 63) (min n (2 ^ 63 - 1)) : ℤ)) ∧
    ((∀ n : ℤ, value ≠ n) → display = trimPlaces (ofFixed places negative units) ∧
      ∃ m, IsRounded places value m ∧ Display.denoted display = m / 10 ^ places ∧
        (places = 0 → display = (toString m).toList)) := by
  rw [hx]
  intro display value
  have hdisplay : display = signed negative (Double.shown places negative units) :=
    ofRounded_eq places negative units
  have hnumber : Display.IsNumber display := Display.isNumber_ofRounded places negative units
  refine ⟨⟨hnumber, hnumber.ne_minus_zero, fun whole fraction heq => ?_⟩,
    fun n hn => denoted_ofRounded_of_whole hn, fun hfraction => ?_⟩
  · rw [hdisplay] at heq
    exact (length_le_of_signed_eq heq).trans (Double.places_shown_le places negative units)
  · have hwhole : units % Double.one ≠ 0 := fun hwhole =>
      hfraction _ (Double.toRat_eq_intCast_iff.mpr ⟨hwhole, rfl⟩)
    refine ⟨ofRounded_eq_trimPlaces places negative hwhole, _,
      Double.isRounded_toRat places negative units, denoted_ofRounded_of_not_whole hwhole, ?_⟩
    rintro rfl
    rw [hdisplay, Double.shown, if_neg hwhole, Double.rounded, Decimal.reduced, signed_whole,
      pow_zero, Nat.mul_one]

/-- Halfway between two integers the even one is displayed, and it keeps the zero at its end. -/
theorem ofRounded_accurate_tie : Double.ofFloat 9.5 = .finite false (19 * 2 ^ 1073) ∧
    ofRounded 0 (Double.ofFloat 9.5) = "10".toList ∧
    ∃ m, IsRounded 0 (Double.ofFloat 9.5).toRat m ∧ "10".toList = (toString m).toList := by
  have hx : Double.ofFloat 9.5 = .finite false (19 * 2 ^ 1073) := by decide +kernel
  have htext : ofRounded 0 (Double.ofFloat 9.5) = "10".toList := by decide +kernel
  have hfraction : ∀ n : ℤ, (Double.ofFloat 9.5).toRat ≠ n := by
    intro n hn
    rw [hx] at hn
    exact absurd (Double.toRat_eq_intCast_iff.mp hn).1 (by decide +kernel)
  obtain ⟨-, -, hrounded⟩ := ofRounded_accurate hx 0
  obtain ⟨-, m, hm, -, hinteger⟩ := hrounded hfraction
  rw [htext] at hinteger
  exact ⟨hx, htext, m, hm, hinteger rfl⟩

end Text

end Calculator
