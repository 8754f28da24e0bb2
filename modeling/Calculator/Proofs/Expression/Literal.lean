import Calculator.Proofs.Expression.Grammar
import Calculator.Proofs.Number.Bits
import Calculator.Proofs.Number.Nearest
import Calculator.Proofs.Number.Written

/-!
# The text of a double is a factor

A double that is written can stand wherever the scientific grammar has a factor, and its value there
is the double itself. Only a sign may be needed, so the tree is at most one sign deep.
-/

namespace Calculator

/-- A finite double is written as a decimal that denotes it, after its sign. -/
theorem Text.exists_decimal_of_finite {x : Float} {negative : Bool} {units : Nat}
    (hx : Double.ofFloat x = .finite negative units) :
    ∃ d : Decimal, Text.ofFloat x = (if negative then ['-'] else []) ++ d.text ∧
      x = if negative then -d.toFloat else d.toFloat := by
  obtain ⟨hfinite, -⟩ := Double.units_eq_of_ofFloat hx
  have hvalue := Double.eq_of_ofFloat_eq_finite hx
  refine ⟨Double.shortest (Double.magnitudeBits x), ?_, ?_⟩
  · simp only [Text.ofFloat, hx, Double.magnitudeBits]
    congr 1
    cases negative <;> rfl
  · rw [Decimal.toFloat_eq_ofBits, Double.bits_shortest hfinite]
    exact hvalue

namespace Expression

/-- A decimal after a minus sign or none is a factor. -/
theorem exists_derives_decimal (negative : Bool) (d : Decimal) (last : Bool) (n : Nat) :
    ∃ e, Derives .scientific last .factor
        (spaces n ++ ((if negative then ['-'] else []) ++ d.text)) e ∧
      e.value = (if negative then -d.toFloat else d.toFloat) ∧ e.nesting ≤ 1 := by
  have hnumber (k : Nat) : Derives .scientific last .factor (spaces k ++ d.text) (.number d) := by
    have h : Derives .scientific last .factor (spaces k ++ d.text)
        (.number (.ofNumeral d.text)) := .number k d.isNumeral_text
    rwa [Decimal.ofNumeral_text] at h
  cases negative with
  | false => exact ⟨.number d, hnumber n, rfl, Nat.zero_le 1⟩
  | true => exact ⟨.minus (.number d), .minus n (hnumber 0), rfl, Nat.le_refl 1⟩

/-- **The text of a double is a factor that has the double as its value.** -/
theorem exists_derives_ofFloat (x : Float) (last : Bool) (n : Nat) :
    ∃ e, Derives .scientific last .factor (spaces n ++ Text.ofFloat x) e ∧
      e.value = x ∧ e.nesting ≤ 1 := by
  cases hx : Double.ofFloat x with
  | nan =>
    refine ⟨.undefined, ?_, (Double.eq_of_ofFloat_eq_nan hx).symm, Nat.zero_le 1⟩
    rw [Text.ofFloat, hx]
    exact .undefined n rfl
  | infinite negative =>
    have hvalue := Double.eq_of_ofFloat_eq_infinite hx
    cases negative with
    | false =>
      refine ⟨.infinity, ?_, hvalue.symm, Nat.zero_le 1⟩
      rw [Text.ofFloat, hx]
      exact .infinity n rfl
    | true =>
      refine ⟨.minus .infinity, ?_, hvalue.symm, Nat.le_refl 1⟩
      rw [Text.ofFloat, hx]
      exact .minus n (.infinity 0 rfl)
  | finite negative units =>
    obtain ⟨d, htext, hvalue⟩ := Text.exists_decimal_of_finite hx
    rw [htext, hvalue]
    exact exists_derives_decimal negative d last n

end Expression

end Calculator
