import Calculator.Number.Shortest
import Calculator.Proofs.Expression.Numeral

/-!
# How numbers are written

The text of a decimal is a numeral that denotes it, so writing and reading a decimal loses nothing.
The text of a double is made of few characters; none of them is a bracket, a space or a letter that
starts the name of a function or is the symbol of a constant. Its last one is in no name.
-/

namespace Calculator

namespace Decimal

/-- The digits that a decimal is written with: those of its coefficient, with zeros before them if
they do not reach past the point. -/
def paddedDigits (d : Decimal) : Text :=
  List.replicate (d.places + 1 - (Nat.toDigits 10 d.coefficient).length) '0' ++
    Nat.toDigits 10 d.coefficient

theorem paddedDigits_isDigit (d : Decimal) : ∀ c ∈ d.paddedDigits, c.isDigit = true := by
  intro c hc
  rcases List.mem_append.mp hc with hc | hc
  · rw [List.eq_of_mem_replicate hc]
    decide
  · exact Nat.isDigit_of_mem_toDigits (by decide) (by decide) hc

theorem paddedDigits_length (d : Decimal) : d.places < d.paddedDigits.length := by
  simp only [paddedDigits, List.length_append, List.length_replicate]
  omega

theorem ofDigitChars_paddedDigits (d : Decimal) :
    Nat.ofDigitChars 10 d.paddedDigits 0 = d.coefficient := by
  rw [paddedDigits, Nat.ofDigitChars_append, Nat.ofDigitChars_replicate_zero, Nat.mul_zero,
    Nat.ofDigitChars_ten_toDigits]

/-- The text of a decimal is its digits without or with a point among them. -/
theorem text_eq (d : Decimal) :
    d.text = if d.places = 0 then d.paddedDigits
      else d.paddedDigits.take (d.paddedDigits.length - d.places) ++
        '.' :: d.paddedDigits.drop (d.paddedDigits.length - d.places) := by
  rw [text]
  by_cases hplaces : d.places = 0
  · simp [hplaces, paddedDigits]
  · simp [hplaces, paddedDigits]

/-- The text of a decimal is a numeral. -/
theorem isNumeral_text (d : Decimal) : IsNumeral d.text := by
  have hlength := d.paddedDigits_length
  rw [text_eq]
  split
  · exact .of_digits d.paddedDigits_isDigit (List.length_pos_iff.mp (by omega))
  · refine .of_point (fun c hc => d.paddedDigits_isDigit c (List.mem_of_mem_take hc))
      (fun c hc => d.paddedDigits_isDigit c (List.mem_of_mem_drop hc)) (.inl ?_)
    rw [← List.length_pos_iff, List.length_take]
    omega

/-- The text of a decimal denotes the decimal. -/
theorem ofNumeral_text (d : Decimal) : ofNumeral d.text = d := by
  have hlength := d.paddedDigits_length
  have hvalue := d.ofDigitChars_paddedDigits
  rw [text_eq]
  split
  · rename_i hplaces
    rw [ofNumeral_of_digits d.paddedDigits_isDigit, hvalue, ← hplaces]
  · rw [ofNumeral_of_point (fun c hc => d.paddedDigits_isDigit c (List.mem_of_mem_take hc))
      (fun c hc => d.paddedDigits_isDigit c (List.mem_of_mem_drop hc)),
      List.take_append_drop, hvalue, List.length_drop]
    have hdrop : d.paddedDigits.length - (d.paddedDigits.length - d.places) = d.places := by omega
    rw [hdrop]

/-- The text of a decimal ends with a digit. -/
theorem exists_text_eq_concat (d : Decimal) : ∃ s c, d.text = s ++ [c] ∧ c.isDigit = true := by
  have hlength := d.paddedDigits_length
  have hconcat : ∀ digits : Text, digits ≠ [] → (∀ c ∈ digits, c ∈ d.paddedDigits) →
      ∃ s c, digits = s ++ [c] ∧ c.isDigit = true := fun digits hne hmem =>
    ⟨digits.dropLast, digits.getLast hne, (List.dropLast_concat_getLast hne).symm,
      d.paddedDigits_isDigit _ (hmem _ (List.getLast_mem hne))⟩
  rw [text_eq]
  split
  · exact hconcat _ (List.length_pos_iff.mp (by omega)) fun _ => id
  · have hdrop : d.paddedDigits.drop (d.paddedDigits.length - d.places) ≠ [] := by
      rw [← List.length_pos_iff, List.length_drop]
      omega
    obtain ⟨s, c, hs, hc⟩ := hconcat _ hdrop fun _ => List.mem_of_mem_drop
    rw [hs]
    exact ⟨_, c, (List.append_assoc _ ('.' :: s) [c]).symm, hc⟩

end Decimal

namespace Text

/-- Whether a character may occur in the text of a double. -/
def isOfNumber (c : Char) : Bool :=
  Expression.isNumeric c || ['-', 'N', 'a', 'i', 'n', 'f'].contains c

/-- The text of a double has no other characters. -/
theorem isOfNumber_of_mem_ofFloat {x : Float} {c : Char} (hc : c ∈ ofFloat x) :
    isOfNumber c = true := by
  have hall {s : Text} (hs : s.all isOfNumber = true) (hc : c ∈ s) : isOfNumber c = true :=
    List.all_eq_true.mp hs c hc
  unfold ofFloat at hc
  split at hc
  · exact hall (by decide) hc
  · rename_i negative _
    exact hall (by cases negative <;> decide) hc
  · rename_i negative units _
    rcases List.mem_append.mp hc with hc | hc
    · exact hall (by cases negative <;> decide) hc
    · have hnumeric := (Decimal.isNumeral_text _).numeric c hc
      simp [isOfNumber, hnumeric]

/-- What is not a character of numbers is in the text of no double. -/
theorem not_mem_ofFloat {c : Char} (hc : isOfNumber c = false) (x : Float) : c ∉ ofFloat x := by
  intro hmem
  rw [isOfNumber_of_mem_ofFloat hmem] at hc
  cases hc

/-- Whether a character may be the last one in the text of a double. -/
def endsNumber (c : Char) : Bool := c.isDigit || c == 'N' || c == 'f'

/-- The text of a double ends with a digit, or as one of the two words does. -/
theorem exists_ofFloat_eq_concat (x : Float) :
    ∃ s c, ofFloat x = s ++ [c] ∧ endsNumber c = true := by
  unfold ofFloat
  split
  · exact ⟨['N', 'a'], 'N', rfl, by decide⟩
  · rename_i negative _
    exact ⟨(if negative then "-" else "") ++ ['i', 'n'], 'f', by simp, by decide⟩
  · rename_i negative _ _
    obtain ⟨s, c, hs, hc⟩ := (Double.shortest (x.toBits.toNat % 2 ^ 63)).exists_text_eq_concat
    refine ⟨(if negative then "-" else "") ++ s, c, ?_, by simp [endsNumber, hc]⟩
    rw [hs, List.append_assoc]

end Text

end Calculator
