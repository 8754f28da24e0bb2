import Calculator.Proofs.Expression.Evaluation
import Calculator.Proofs.Expression.Literal
import Calculator.Proofs.Number.Displayed
import Calculator.Proofs.Number.Rounding

/-!
# Displayed numbers read back as what they display

A display is read as the double nearest to it, which need not be the double that was displayed. The
double that was displayed is no nearer, though, so the one that is read is at most half a step of
the last place away from the display, and a tie goes to the same even digit for both. Hence it is
displayed in the same way. A display without places is read exactly below the 64-bit limits.
-/

namespace Calculator

namespace Double

variable {bits places : Nat} {negative : Bool}

/-! ## Sizes -/

theorem one_pos : 0 < one := by
  obtain ⟨exponent, -, hone⟩ := exists_one_eq
  rw [hone]
  exact Nat.two_pow_pos exponent

/-- A quotient of moderate size has a finite nearest double. -/
theorem nearestBits_lt_infinityBits {num den : Nat} (hden : 0 < den) (hle : num ≤ 2 ^ 64 * den) :
    nearestBits num den < infinityBits := by
  obtain ⟨exponent, hnearest, hsignificand, -, hlarge⟩ := exists_rounded num hden
  generalize roundHalfEven (num * one) (den * 2 ^ exponent) = significand at hnearest hsignificand
  obtain ⟨places, hplaces, hone⟩ := exists_one_eq
  have hexponent : exponent ≤ 1086 := by
    rcases hlarge with rfl | hlarge
    · exact Nat.zero_le _
    · have hbound : den * 2 ^ (52 + exponent) ≤ den * 2 ^ (64 + places) :=
        calc den * 2 ^ (52 + exponent) ≤ num * 2 ^ places := hone ▸ hlarge
          _ ≤ 2 ^ 64 * den * 2 ^ places := Nat.mul_le_mul_right _ hle
          _ = den * 2 ^ (64 + places) := by rw [Nat.pow_add, Nat.mul_comm _ den, Nat.mul_assoc]
      have hpower := Nat.le_of_mul_le_mul_left hbound hden
      have hsum := (Nat.pow_le_pow_iff_right (by decide)).mp hpower
      omega
  rw [hnearest, infinityBits]
  omega

/-- A double that is not whole is small enough to have a place after the point. -/
theorem unitsOfBits_lt (hwhole : unitsOfBits bits % one ≠ 0) :
    unitsOfBits bits < 2 ^ 52 * one := by
  obtain ⟨significand, exponent, -, hlt, -, hunits⟩ := exists_significand bits
  obtain ⟨places, -, hone⟩ := exists_one_eq
  rw [hunits, hone] at hwhole ⊢
  have hexponent : exponent < places := by
    by_contra hge
    apply hwhole
    rw [← Nat.sub_add_cancel (Nat.le_of_not_lt hge), Nat.pow_add, ← Nat.mul_assoc]
    exact Nat.mul_mod_left _ _
  calc significand * 2 ^ exponent < 2 ^ 53 * 2 ^ exponent :=
        Nat.mul_lt_mul_of_pos_right hlt (Nat.two_pow_pos _)
    _ = 2 ^ (53 + exponent) := (Nat.pow_add ..).symm
    _ ≤ 2 ^ (52 + places) := Nat.pow_le_pow_right (by decide) (by omega)
    _ = 2 ^ 52 * 2 ^ places := Nat.pow_add ..

/-! ## Displaying what a display is read as -/

/-- The double nearest to a rounded double is rounded alike. -/
theorem roundHalfEven_nearestBits {coefficient : Nat}
    (hround : roundHalfEven (unitsOfBits bits * 10 ^ places) one = coefficient)
    (hfinite : nearestBits coefficient (10 ^ places) < infinityBits) :
    roundHalfEven (unitsOfBits (nearestBits coefficient (10 ^ places)) * 10 ^ places) one =
      coefficient := by
  have hnearest := dist_nearestBits_le coefficient bits (Nat.pow_pos (by decide)) hfinite
  have herror := two_mul_dist_roundHalfEven_le (unitsOfBits bits * 10 ^ places) one_pos
  have htie := roundHalfEven_mod_two (unitsOfBits bits * 10 ^ places) one_pos
  rw [hround] at herror htie
  rw [Nat.dist_comm, Nat.dist_comm (unitsOfBits bits * 10 ^ places)] at hnearest
  refine roundHalfEven_eq one_pos (by omega) fun heven => htie ?_
  omega

/-- The decimal of a double that is not whole is kept by reading it. -/
private theorem shown_of_not_whole (hwhole : unitsOfBits bits % one ≠ 0) :
    let d := shown places negative (unitsOfBits bits)
    d.bits < infinityBits ∧
      shown places (negative && d.coefficient != 0) (unitsOfBits d.bits) = d := by
  have hpow : 0 < 10 ^ places := Nat.pow_pos (by decide)
  intro d
  have hle : roundHalfEven (unitsOfBits bits * 10 ^ places) one ≤ 2 ^ 52 * 10 ^ places := by
    apply roundHalfEven_le one_pos
    rw [Nat.mul_right_comm]
    exact Nat.mul_le_mul_right _ (Nat.le_of_lt (unitsOfBits_lt hwhole))
  have hd : d = Decimal.reduced places (roundHalfEven (unitsOfBits bits * 10 ^ places) one) :=
    if_neg hwhole
  have hbits : d.bits = nearestBits (roundHalfEven (unitsOfBits bits * 10 ^ places) one)
      (10 ^ places) := by
    rw [hd, Decimal.bits_reduced]
  generalize hcoefficient : roundHalfEven (unitsOfBits bits * 10 ^ places) one = coefficient
    at hle hd hbits
  have hfinite : nearestBits coefficient (10 ^ places) < infinityBits :=
    nearestBits_lt_infinityBits hpow (by omega)
  refine ⟨by rwa [hbits], ?_⟩
  have hround := roundHalfEven_nearestBits hcoefficient hfinite
  rw [hbits]
  generalize unitsOfBits (nearestBits coefficient (10 ^ places)) = units at hround
  by_cases hunits : units % one = 0
  · -- a whole double is read only if all places are zeros
    have hcount : units / one * one = units := Nat.div_mul_cancel (Nat.dvd_of_mod_eq_zero hunits)
    have hzeros : coefficient = units / one * 10 ^ places := by
      rw [← hround]
      conv_lhs => rw [← hcount, Nat.mul_right_comm]
      exact roundHalfEven_mul_right _ one_pos
    have hsmall : units / one ≤ 2 ^ 52 := by
      rw [hzeros] at hle
      exact Nat.le_of_mul_le_mul_right hle hpow
    rw [hd, hzeros, Decimal.reduced_mul_pow, shown, if_pos hunits, Nat.min_eq_left]
    unfold greatestWhole
    split <;> omega
  · rw [shown, if_neg hunits, rounded, hround, hd]

/-- The decimal of a whole double is kept by reading it: it is the double itself, or the power of
two at the limit of 64 bits, which is displayed as the integer at this limit. -/
private theorem shown_of_whole (hbits : bits < infinityBits) (hwhole : unitsOfBits bits % one = 0) :
    let d := shown places negative (unitsOfBits bits)
    d.bits < infinityBits ∧
      shown places (negative && d.coefficient != 0) (unitsOfBits d.bits) = d := by
  have hcount : unitsOfBits bits / one * one = unitsOfBits bits :=
    Nat.div_mul_cancel (Nat.dvd_of_mod_eq_zero hwhole)
  have hshown (sign : Bool) {units : Nat} (hunits : units % one = 0) :
      shown places sign units = ⟨min (units / one) (greatestWhole sign), 0⟩ := if_pos hunits
  rw [hshown negative hwhole]
  dsimp only
  rcases Nat.le_total (unitsOfBits bits / one) (greatestWhole negative) with hle | hge
  · have hexact : (⟨unitsOfBits bits / one, 0⟩ : Decimal).bits = bits :=
      nearestBits_of_exact Nat.one_pos hbits (hcount.trans (Nat.mul_one _).symm)
    rw [Nat.min_eq_left hle, hexact, hshown _ hwhole]
    refine ⟨hbits, ?_⟩
    rcases Nat.eq_zero_or_pos (unitsOfBits bits / one) with hzero | hpos
    · rw [hzero, Nat.zero_min]
    · rw [bne_iff_ne.mpr (Nat.ne_of_gt hpos), Bool.and_true, Nat.min_eq_left hle]
  · have hlimit : (⟨greatestWhole negative, 0⟩ : Decimal).bits < infinityBits ∧
        unitsOfBits (⟨greatestWhole negative, 0⟩ : Decimal).bits % one = 0 ∧
        unitsOfBits (⟨greatestWhole negative, 0⟩ : Decimal).bits / one = 2 ^ 63 ∧
        (negative && greatestWhole negative != 0) = negative := by
      cases negative <;> decide +kernel
    obtain ⟨hfinite, hunits, hunitsCount, hsign⟩ := hlimit
    rw [Nat.min_eq_right hge, hshown _ hunits, hunitsCount, hsign]
    refine ⟨hfinite, ?_⟩
    rw [Nat.min_eq_right]
    unfold greatestWhole
    split <;> omega

/-- The decimal that a finite double is displayed as is displayed as itself once it is read. -/
theorem shown_unitsOfBits_bits (places : Nat) (negative : Bool) (hbits : bits < infinityBits) :
    let d := shown places negative (unitsOfBits bits)
    d.bits < infinityBits ∧
      shown places (negative && d.coefficient != 0) (unitsOfBits d.bits) = d := by
  by_cases hwhole : unitsOfBits bits % one = 0
  · exact shown_of_whole hbits hwhole
  · exact shown_of_not_whole hwhole

end Double

/-- A decimal after its sign is evaluated to the double nearest to it. -/
theorem evaluate_signed (negative : Bool) {d : Decimal} (hbits : d.bits < Double.infinityBits) :
    ∃ w, evaluate .scientific (Text.signed negative d) = .ok w ∧
      Double.ofFloat w =
        .finite (negative && d.coefficient != 0) (Double.unitsOfBits d.bits) := by
  have hvalue : Double.ofFloat d.toFloat = .finite false (Double.unitsOfBits d.bits) := by
    rw [Decimal.toFloat_eq_ofBits]
    exact Double.ofFloat_ofBits hbits
  unfold Text.signed
  generalize (negative && d.coefficient != 0) = sign
  obtain ⟨e, hderives, hw, hnest⟩ := Expression.exists_derives_decimal sign d true 0
  have haccepts : Expression.Accepts .scientific ((if sign then ['-'] else []) ++ d.text) e :=
    ⟨_, 0, (List.append_nil _).symm, .ofTerm (.ofFactor hderives)⟩
  refine ⟨e.value, Expression.evaluate_of_accepts haccepts (by rw [maxNesting]; omega), ?_⟩
  rw [hw]
  cases sign with
  | false => exact hvalue
  | true => exact Double.ofFloat_neg hvalue

namespace Text

/-- **Displays are stable under reading them back.** The display of a finite double, with any number
of places, is evaluated to a finite double, and this one is displayed in the same way. -/
theorem ofRounded_stable {x : Float} {negative : Bool} {units : Nat}
    (hx : Double.ofFloat x = .finite negative units) (places : Nat) :
    ∃ w, evaluate .scientific (ofRounded places (Double.ofFloat x)) = .ok w ∧
      (∃ sign units', Double.ofFloat w = .finite sign units') ∧
      ofRounded places (Double.ofFloat w) = ofRounded places (Double.ofFloat x) := by
  obtain ⟨hfinite, rfl⟩ := Double.units_eq_of_ofFloat hx
  rw [hx, ofRounded_eq]
  obtain ⟨hbits, hshown⟩ := Double.shown_unitsOfBits_bits places negative hfinite
  generalize Double.shown places negative (Double.unitsOfBits (Double.magnitudeBits x)) = d
    at hbits hshown
  obtain ⟨w, heval, hw⟩ := evaluate_signed negative hbits
  refine ⟨w, heval, ⟨_, _, hw⟩, ?_⟩
  rw [hw, ofRounded_eq, hshown, signed, signed, Bool.and_assoc, Bool.and_self]

/-- With one place `-0.25` is displayed as `-0.2`, which is read as another double. -/
theorem ofRounded_stable_tie : ofRounded 1 (Double.ofFloat (-0.25)) = "-0.2".toList ∧
    ∃ w, evaluate .scientific "-0.2".toList = .ok w ∧
      ofRounded 1 (Double.ofFloat w) = "-0.2".toList := by
  have hx : Double.ofFloat (-0.25) = .finite true (2 ^ 1072) := by decide +kernel
  have htext : ofRounded 1 (Double.ofFloat (-0.25)) = "-0.2".toList := by decide +kernel
  obtain ⟨w, heval, -, hstable⟩ := ofRounded_stable hx 1
  rw [htext] at heval hstable
  exact ⟨htext, w, heval, hstable⟩

end Text

end Calculator
