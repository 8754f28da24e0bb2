import Calculator.Proofs.Number.Displayed
import Mathlib.Data.List.DropRight

/-!
# Trimming the places of a number

A number with a fixed count of places ends in zeros, and in a point before them if all of its places
are zeros. Trimming the text drops these, but only from a text with a point, so that a number
without places keeps the zeros at its end. What is left is the text of the reduced decimal. A
displayed number is the trimmed text of the rounded number, or `0` if that reads `-0`.
-/

namespace Calculator

variable {places units : ℕ} {s : Text}

/-- A text without the zeros at its end and without a point before them. -/
def Text.dropZeros (s : Text) : Text :=
  (s.rdropWhile (· == '0')).rdropWhile (· == '.')

/-- The text of a number without zeros at the end of its places. Zero has no sign. -/
def Text.trimPlaces (s : Text) : Text :=
  let trimmed := if '.' ∈ s then s.dropZeros else s
  if trimmed = [] ∨ trimmed = "-0".toList then "0" else trimmed

/-- A double with all of its places, whatever they are, and the sign that it has even as zero. -/
def Text.ofFixed (places : ℕ) (negative : Bool) (units : ℕ) : Text :=
  (if negative then ['-'] else []) ++
    (⟨roundHalfEven (units * 10 ^ places) Double.one, places⟩ : Decimal).text

theorem Text.dropZeros_append_zero (s : Text) : dropZeros (s ++ ['0']) = dropZeros s := by
  rw [dropZeros, List.rdropWhile_concat_pos _ _ _ (by decide), dropZeros]

theorem Text.dropZeros_append {c : Char} (hzero : c ≠ '0') (hpoint : c ≠ '.') (s : Text) :
    dropZeros (s ++ [c]) = s ++ [c] := by
  rw [dropZeros, List.rdropWhile_concat_neg _ _ _ (by simpa using hzero),
    List.rdropWhile_concat_neg _ _ _ (by simpa using hpoint)]

theorem Text.dropZeros_append_point {c : Char} (hpoint : c ≠ '.') (s : Text) :
    dropZeros (s ++ [c] ++ ['.', '0']) = s ++ [c] := by
  rw [show s ++ [c] ++ ['.', '0'] = s ++ [c] ++ ['.'] ++ ['0'] by simp, dropZeros_append_zero,
    dropZeros, List.rdropWhile_concat_neg _ _ _ (by decide),
    List.rdropWhile_concat_pos _ _ _ (by decide),
    List.rdropWhile_concat_neg _ _ _ (by simpa using hpoint)]

namespace Decimal

/-- The last place of a decimal is the last of its digits. -/
theorem paddedDigits_succ (coefficient places : ℕ) :
    (⟨coefficient, places + 1⟩ : Decimal).paddedDigits =
      (⟨coefficient / 10, places⟩ : Decimal).paddedDigits ++
        [Nat.digitChar (coefficient % 10)] := by
  unfold paddedDigits
  dsimp only
  by_cases hlt : coefficient < 10
  · rw [Nat.div_eq_of_lt hlt, Nat.mod_eq_of_lt hlt, Nat.toDigits_of_lt_base hlt,
      Nat.toDigits_of_lt_base (by decide : 0 < 10)]
    simp [← List.replicate_succ', Nat.digitChar]
  · rw [Nat.toDigits_eq_if (by decide), if_neg hlt, List.length_append, ← List.append_assoc]
    simp [Nat.add_sub_add_right]

/-- The text of a decimal with one place less goes before its last place, and the point before the
first place. -/
theorem text_succ (coefficient places : ℕ) :
    (⟨coefficient, places + 1⟩ : Decimal).text =
      (⟨coefficient / 10, places⟩ : Decimal).text ++ (if places = 0 then ['.'] else []) ++
        [Nat.digitChar (coefficient % 10)] := by
  have hlength := (⟨coefficient / 10, places⟩ : Decimal).paddedDigits_length
  rw [text_eq, text_eq, if_neg (Nat.succ_ne_zero places), paddedDigits_succ]
  generalize (⟨coefficient / 10, places⟩ : Decimal).paddedDigits = digits at hlength ⊢
  dsimp only at hlength ⊢
  rw [List.length_append, List.length_singleton, Nat.add_sub_add_right,
    List.take_append_of_le_length (Nat.sub_le _ _), List.drop_append_of_le_length (Nat.sub_le _ _)]
  by_cases hplaces : places = 0
  · simp [hplaces]
  · simp [hplaces]

/-- By induction on the places: without its zeros the text of a decimal is that of the reduced
decimal. -/
theorem dropZeros_text (sign : Text) (coefficient places : ℕ) :
    Text.dropZeros (sign ++ (⟨coefficient, places + 1⟩ : Decimal).text) =
      sign ++ (reduced (places + 1) coefficient).text := by
  have hlast : ∀ k < 10, k ≠ 0 → Nat.digitChar k ≠ '0' ∧ Nat.digitChar k ≠ '.' := by decide
  induction places generalizing coefficient with
  | zero =>
    rw [text_succ, if_pos rfl, reduced]
    by_cases hzero : coefficient % 10 = 0
    · obtain ⟨s, c, hs, hc⟩ := (⟨coefficient / 10, 0⟩ : Decimal).exists_text_eq_concat
      have hpoint : c ≠ '.' := by
        rintro rfl
        simp [point_not_isDigit] at hc
      rw [if_pos hzero, hzero, reduced, hs]
      simpa [Nat.digitChar] using Text.dropZeros_append_point hpoint (sign ++ s)
    · obtain ⟨hne, hpoint⟩ := hlast _ (Nat.mod_lt coefficient (by decide)) hzero
      rw [if_neg hzero, ← List.append_assoc, Text.dropZeros_append hne hpoint, text_succ,
        if_pos rfl, List.append_assoc]
  | succ places ih =>
    rw [text_succ, if_neg (Nat.succ_ne_zero places), List.append_nil, reduced, ← List.append_assoc]
    by_cases hzero : coefficient % 10 = 0
    · rw [if_pos hzero, hzero, ← ih]
      exact Text.dropZeros_append_zero _
    · obtain ⟨hne, hpoint⟩ := hlast _ (Nat.mod_lt coefficient (by decide)) hzero
      rw [if_neg hzero, Text.dropZeros_append hne hpoint, text_succ coefficient,
        if_neg (Nat.succ_ne_zero places), List.append_nil, List.append_assoc]

theorem point_mem_text_iff (d : Decimal) : '.' ∈ d.text ↔ d.places ≠ 0 := by
  have hdigits : '.' ∉ d.paddedDigits := fun h => by
    simpa [point_not_isDigit] using d.paddedDigits_isDigit '.' h
  rw [text_eq]
  split
  · rename_i hplaces
    simp [hplaces, hdigits]
  · rename_i hplaces
    simp [hplaces]

/-- Among the reduced decimals only zero is written as a single zero. -/
theorem IsReduced.text_eq_zero_iff {d : Decimal} (h : d.IsReduced) :
    d.text = ['0'] ↔ d.coefficient = 0 := by
  constructor
  · intro htext
    have hvalue := d.ofNumeral_text
    rw [htext] at hvalue
    rw [← hvalue]
    rfl
  · intro hzero
    have hplaces : d.places = 0 := h.resolve_right (by simp [hzero])
    obtain ⟨coefficient, places⟩ := d
    cases hzero
    cases hplaces
    rfl

end Decimal

namespace Text

/-- A trimmed number is the reduced decimal after its sign, which zero does not have. -/
theorem trimPlaces_text (negative : Bool) (coefficient places : ℕ) :
    trimPlaces ((if negative then ['-'] else []) ++ (⟨coefficient, places⟩ : Decimal).text) =
      signed negative (Decimal.reduced places coefficient) := by
  have hreduced := Decimal.isReduced_reduced places coefficient
  have hnumeral := (Decimal.reduced places coefficient).isNumeral_text
  generalize hsign : (if negative then ['-'] else [] : Text) = sign
  have hpoint : '.' ∈ sign ++ (⟨coefficient, places⟩ : Decimal).text ↔ places ≠ 0 := by
    rw [List.mem_append, Decimal.point_mem_text_iff, ← hsign]
    cases negative <;> simp
  have htrimmed : (if '.' ∈ sign ++ (⟨coefficient, places⟩ : Decimal).text
      then dropZeros (sign ++ (⟨coefficient, places⟩ : Decimal).text)
      else sign ++ (⟨coefficient, places⟩ : Decimal).text) =
      sign ++ (Decimal.reduced places coefficient).text := by
    cases places with
    | zero => rw [if_neg (by simp [hpoint]), Decimal.reduced]
    | succ places => rw [if_pos (by simp [hpoint]), Decimal.dropZeros_text]
  unfold trimPlaces
  simp only [htrimmed]
  generalize Decimal.reduced places coefficient = d at hreduced hnumeral
  by_cases hzero : d.coefficient = 0
  · rw [signed, hzero, hreduced.text_eq_zero_iff.mpr hzero, ← hsign]
    cases negative <;> rfl
  · have hsigned : signed negative d = sign ++ d.text := by
      rw [signed, bne_iff_ne.mpr hzero, Bool.and_true, hsign]
    rw [hsigned, if_neg]
    rintro (hnil | hminus)
    · obtain ⟨c, hc, -⟩ := hnumeral.digit
      exact List.ne_nil_of_mem (List.mem_append_right sign hc) hnil
    · cases negative with
      | true =>
        subst hsign
        exact hzero (hreduced.text_eq_zero_iff.mp (List.cons.inj hminus).2)
      | false =>
        subst hsign
        have hdash := hnumeral.numeric '-' (by rw [show d.text = ['-', '0'] from hminus]; simp)
        exact absurd hdash (by decide)

/-- **A displayed number is a rounded number whose places are trimmed**, unless it is whole. -/
theorem ofRounded_eq_trimPlaces (places : ℕ) (negative : Bool) (hwhole : units % Double.one ≠ 0) :
    ofRounded places (.finite negative units) = trimPlaces (ofFixed places negative units) := by
  rw [ofRounded_eq, Double.shown, if_neg hwhole, ofFixed, trimPlaces_text, Double.rounded]

end Text

end Calculator
