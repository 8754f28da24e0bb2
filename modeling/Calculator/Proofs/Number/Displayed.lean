import Calculator.Proofs.Number.Written
import Calculator.Proofs.Radix.Literal

/-!
# Displayed numbers

Every finite double is displayed as a decimal after a sign: a whole one as the nearest integer with
64 bits, any other one rounded to its places. The decimal is reduced and zero has no sign, so the
display has no zeros before its first digit or after its last place, no point without places, and
never reads `-0`.
-/

namespace Calculator

namespace Decimal

/-- A decimal that does not end in a zero after the point. -/
def IsReduced (d : Decimal) : Prop := d.places = 0 ∨ d.coefficient % 10 ≠ 0

theorem isReduced_reduced (places coefficient : Nat) : (reduced places coefficient).IsReduced := by
  induction places generalizing coefficient with
  | zero => exact .inl rfl
  | succ places ih =>
    rw [reduced]
    by_cases hzero : coefficient % 10 = 0
    · rw [if_pos hzero]
      exact ih _
    · rw [if_neg hzero]
      exact .inr hzero

/-- A whole number keeps none of its places. -/
theorem reduced_mul_pow (n places : Nat) : reduced places (n * 10 ^ places) = ⟨n, 0⟩ := by
  induction places with
  | zero => rw [Nat.pow_zero, Nat.mul_one, reduced]
  | succ places ih =>
    rw [Nat.pow_succ, ← Nat.mul_assoc, reduced, if_pos (Nat.mul_mod_left _ _),
      Nat.mul_div_cancel _ (by decide)]
    exact ih

/-! ## The form of a decimal -/

/-- Places as they are displayed: none and no point, or digits of which the last is not zero. -/
inductive IsFraction : Text → Prop
  | none : IsFraction []
  | places {digits : Text} {last : Char} (hdigits : ∀ c ∈ digits, c.isDigit = true)
    (hlast : last.isDigit = true) (hne : last ≠ '0') : IsFraction ('.' :: digits ++ [last])

/-- The last digit of a number that is not divisible by ten is not zero. -/
private theorem exists_last_digit {n : Nat} (h : n % 10 ≠ 0) : ∃ digits last,
    Nat.toDigits 10 n = digits ++ [last] ∧ last ≠ '0' := by
  have hlast : ∀ k < 10, k ≠ 0 → Nat.digitChar k ≠ '0' := by decide
  rw [Nat.toDigits_eq_if (by decide)]
  by_cases hlt : n < 10
  · rw [if_pos hlt]
    exact ⟨[], _, rfl, hlast n hlt (by omega)⟩
  · rw [if_neg hlt]
    exact ⟨_, _, rfl, hlast _ (Nat.mod_lt _ (by decide)) h⟩

theorem isWritten_toDigits (n : Nat) : Radix.dec.IsWritten (Nat.toDigits 10 n) := by
  have hwritten := Radix.isWritten_digitsOf .dec n
  rwa [Radix.digitsOf_dec] at hwritten

/-- The first digits of a number in written form are in written form. -/
private theorem isWritten_take {r : Radix} {digits : Text} {n : Nat} (h : r.IsWritten digits)
    (hn : 0 < n) : r.IsWritten (digits.take n) := by
  obtain ⟨hne, hcapital, hleading⟩ := h
  obtain ⟨c, rest, rfl⟩ := List.exists_cons_of_ne_nil hne
  obtain ⟨n, rfl⟩ : ∃ m, n = m + 1 := ⟨n - 1, by omega⟩
  refine ⟨by simp, fun d hd => hcapital d (List.mem_of_mem_take hd), fun hhead => ?_⟩
  rw [hleading hhead, List.take_succ_cons, List.take_nil]

/-- Digits that reach past the point have no zeros before them. -/
theorem paddedDigits_of_lt {d : Decimal}
    (h : d.places < (Nat.toDigits 10 d.coefficient).length) :
    d.paddedDigits = Nat.toDigits 10 d.coefficient := by
  rw [paddedDigits, show d.places + 1 - (Nat.toDigits 10 d.coefficient).length = 0 by omega]
  rfl

/-- A whole number is written with its digits alone. -/
theorem text_of_whole (n : Nat) : (⟨n, 0⟩ : Decimal).text = Nat.toDigits 10 n := by
  have hpos := List.length_pos_iff.mpr (isWritten_toDigits n).nonempty
  rw [Decimal.text_eq, if_pos rfl, paddedDigits_of_lt hpos]

/-- The digits before the point are in written form. -/
theorem isWritten_take_paddedDigits (d : Decimal) :
    Radix.dec.IsWritten (d.paddedDigits.take (d.paddedDigits.length - d.places)) := by
  by_cases hreach : d.places < (Nat.toDigits 10 d.coefficient).length
  · rw [paddedDigits_of_lt hreach]
    exact isWritten_take (isWritten_toDigits _) (by omega)
  · -- there is one zero before the point
    have hzeros : d.places + 1 - (Nat.toDigits 10 d.coefficient).length =
        (d.places - (Nat.toDigits 10 d.coefficient).length) + 1 := by omega
    have hcount : d.paddedDigits.length - d.places = 1 := by
      simp only [paddedDigits, List.length_append, List.length_replicate]
      omega
    rw [hcount, paddedDigits, hzeros]
    exact isWritten_toDigits 0

/-- The places of a decimal that does not end in zero do not end in zero. -/
theorem isFraction_drop_paddedDigits {d : Decimal} (hplaces : d.places ≠ 0)
    (h : d.coefficient % 10 ≠ 0) :
    IsFraction ('.' :: d.paddedDigits.drop (d.paddedDigits.length - d.places)) := by
  obtain ⟨front, last, hlast, hne⟩ := exists_last_digit h
  have hpadded : d.paddedDigits =
      (List.replicate (d.places + 1 - (Nat.toDigits 10 d.coefficient).length) '0' ++ front) ++
        [last] := by
    rw [paddedDigits, hlast, List.append_assoc]
  have hdigits : ∀ c ∈ d.paddedDigits.drop (d.paddedDigits.length - d.places),
      c.isDigit = true := fun c hc => d.paddedDigits_isDigit c (List.mem_of_mem_drop hc)
  have hbound : d.paddedDigits.length - d.places ≤
      (List.replicate (d.places + 1 - (Nat.toDigits 10 d.coefficient).length) '0' ++
        front).length := by
    have hlength := congrArg List.length hpadded
    rw [List.length_append, List.length_singleton] at hlength
    omega
  generalize d.paddedDigits.length - d.places = count at hdigits hbound ⊢
  rw [hpadded, List.drop_append_of_le_length hbound] at hdigits ⊢
  exact .places (fun c hc => hdigits c (List.mem_append_left _ hc))
    (hdigits last (List.mem_append_right _ (List.mem_singleton_self last))) hne

/-- A reduced decimal is written with a whole part in written form and places that do not end in
zero. Only the integer zero is written as `0`. -/
theorem IsReduced.text_eq {d : Decimal} (h : d.IsReduced) : ∃ whole fraction,
    d.text = whole ++ fraction ∧ Radix.dec.IsWritten whole ∧ IsFraction fraction ∧
      (whole = ['0'] ∧ fraction = [] → d.coefficient = 0) := by
  by_cases hplaces : d.places = 0
  · obtain ⟨coefficient, places⟩ := d
    cases hplaces
    rw [text_of_whole]
    refine ⟨_, [], (List.append_nil _).symm, isWritten_toDigits _, .none, fun hzero => ?_⟩
    rw [← Nat.ofDigitChars_ten_toDigits (n := coefficient), hzero.1]
    rfl
  · rw [Decimal.text_eq, if_neg hplaces]
    exact ⟨_, _, rfl, d.isWritten_take_paddedDigits,
      isFraction_drop_paddedDigits hplaces (h.resolve_left hplaces),
      fun hzero => absurd hzero.2 (List.cons_ne_nil _ _)⟩

end Decimal

namespace Display

/-- The form of a displayed number: a sign or none, a whole part that has no zero before other
digits, and places that do not end in zero, or none. The number zero has no sign. -/
inductive IsNumber : Text → Prop
  | mk (negative : Bool) {whole fraction : Text} (hwhole : Radix.dec.IsWritten whole)
    (hfraction : Decimal.IsFraction fraction)
    (hzero : negative = true → ¬(whole = ['0'] ∧ fraction = [])) :
    IsNumber ((if negative then ['-'] else []) ++ whole ++ fraction)

end Display

/-- A decimal after its sign, which zero does not have. -/
def Text.signed (negative : Bool) (d : Decimal) : Text :=
  (if negative && d.coefficient != 0 then ['-'] else []) ++ d.text

/-- A reduced decimal after its sign has the form of a displayed number. -/
theorem Decimal.IsReduced.isNumber {d : Decimal} (h : d.IsReduced) (negative : Bool) :
    Display.IsNumber (Text.signed negative d) := by
  obtain ⟨whole, fraction, htext, hwhole, hfraction, hzero⟩ := h.text_eq
  have hsign : (negative && d.coefficient != 0) = true → ¬(whole = ['0'] ∧ fraction = []) := by
    intro hsign hboth
    rw [hzero hboth] at hsign
    simp at hsign
  have hnumber := Display.IsNumber.mk _ hwhole hfraction hsign
  rwa [List.append_assoc, ← htext] at hnumber

/-! ## The decimal of a double -/

namespace Double

/-- The greatest magnitude of an integer with 64 bits and a sign. -/
def greatestWhole (negative : Bool) : Nat := if negative then 2 ^ 63 else 2 ^ 63 - 1

/-- The decimal that a finite double is displayed as. -/
def shown (places : Nat) (negative : Bool) (units : Nat) : Decimal :=
  if units % one = 0 then ⟨min (units / one) (greatestWhole negative), 0⟩ else rounded places units

theorem isReduced_shown (places : Nat) (negative : Bool) (units : Nat) :
    (shown places negative units).IsReduced := by
  unfold shown
  by_cases hwhole : units % one = 0
  · rw [if_pos hwhole]
    exact .inl rfl
  · rw [if_neg hwhole]
    exact Decimal.isReduced_reduced _ _

/-- An integer becomes the nearest one with 64 bits. -/
theorem toInt_clamp (n : Int) : (clamp n).toInt = max (-2 ^ 63) (min n (2 ^ 63 - 1)) := by
  unfold clamp
  rw [Int64.toInt_minValue, Int64.toInt_maxValue]
  by_cases hlow : n < -2 ^ 63
  · rw [if_pos hlow, Int64.toInt_minValue]
    omega
  by_cases hhigh : 2 ^ 63 - 1 < n
  · rw [if_neg hlow, if_pos hhigh, Int64.toInt_maxValue]
    omega
  · rw [if_neg hlow, if_neg hhigh, Int64.toInt_ofInt_of_le (by omega) (by omega)]
    omega

/-- A finite double is cut to its whole units, or to the outermost integer of its sign. -/
theorem toInt_truncate (negative : Bool) (units : Nat) :
    let magnitude : Nat := min (units / one) (greatestWhole negative)
    (truncate (.finite negative units)).toInt =
      if negative then -(magnitude : Int) else magnitude := by
  cases negative with
  | false =>
    change (clamp (units / one : Nat)).toInt = ((min (units / one) (2 ^ 63 - 1) : Nat) : Int)
    rw [toInt_clamp]
    generalize units / one = count
    omega
  | true =>
    change (clamp (-(units / one : Nat))).toInt = -((min (units / one) (2 ^ 63) : Nat) : Int)
    rw [toInt_clamp]
    generalize units / one = count
    omega

end Double

namespace Text

/-- An integer is written as its magnitude after a sign if it is negative. -/
theorem ofInt64_eq {n : Int64} {negative : Bool} {magnitude : Nat}
    (h : n.toInt = if negative then -(magnitude : Int) else magnitude) :
    ofInt64 n = signed negative ⟨magnitude, 0⟩ := by
  have hmagnitude : n.toInt.natAbs = magnitude := by
    rw [h]
    cases negative <;> simp
  have htext : (⟨magnitude, 0⟩ : Decimal).text = Text.ofNat magnitude :=
    Decimal.text_of_whole magnitude
  have hnegative : n < 0 ↔ (negative && magnitude != 0) = true := by
    rw [Radix.lt_zero_iff, h]
    cases negative with
    | false => simp
    | true =>
      simp
      omega
  rw [ofInt64, signed, hmagnitude, htext]
  by_cases hneg : n < 0
  · rw [if_pos hneg, if_pos (hnegative.mp hneg)]
    rfl
  · rw [if_neg hneg, if_neg (mt hnegative.mpr hneg)]
    rfl

/-- **A finite double is displayed as its decimal after its sign.** -/
theorem ofRounded_eq (places : Nat) (negative : Bool) (units : Nat) :
    ofRounded places (.finite negative units) =
      signed negative (Double.shown places negative units) := by
  have hisWhole : (Double.finite negative units).isWhole = (units % Double.one == 0) := by
    rw [Double.isWhole, Double.isMultipleOf, Nat.one_mul]
  rw [ofRounded, Double.shown, hisWhole]
  by_cases hwhole : units % Double.one = 0
  · rw [if_pos hwhole, if_pos (by simpa using hwhole)]
    exact ofInt64_eq (Double.toInt_truncate negative units)
  · rw [if_neg hwhole, if_neg (by simpa using hwhole), signed]
    dsimp only
    split <;> rfl

end Text

end Calculator
