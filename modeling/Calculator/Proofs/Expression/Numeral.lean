import Calculator.Expression.Parser
import Mathlib.Data.List.Count
import Mathlib.Data.List.TakeDrop

/-!
# Which texts are numbers

The reader of numbers splits a text at its first point. The grammar instead counts: a number is made
of digits and points, with at least one digit and at most one point. This file proves that the two
descriptions accept the same texts and give the same decimal.
-/

namespace Calculator

namespace Decimal

/-- A run of digits and points with at least one digit and at most one point. -/
structure IsNumeral (s : Text) : Prop where
  numeric : ∀ c ∈ s, Expression.isNumeric c = true
  digit : ∃ c ∈ s, c.isDigit = true
  point : s.count '.' ≤ 1

/-- The decimal that a numeral denotes: all of its digits, with as many places as there are
characters after the point. -/
def ofNumeral (s : Text) : Decimal :=
  ⟨Nat.ofDigitChars 10 (s.filter Char.isDigit) 0, (s.dropWhile (· != '.')).length - 1⟩

theorem point_not_isDigit : Char.isDigit '.' = false := by decide

private theorem ne_point_of_isDigit {c : Char} (hc : c.isDigit = true) : (c != '.') = true := by
  have hne : c ≠ '.' := by
    rintro rfl
    simp [point_not_isDigit] at hc
  simpa using hne

private theorem count_point_eq_zero {s : Text} (hs : ∀ c ∈ s, c.isDigit = true) :
    s.count '.' = 0 := by
  rw [List.count_eq_zero]
  intro hmem
  simpa [point_not_isDigit] using hs _ hmem

private theorem dropWhile_point_of_digits {s t : Text} (hs : ∀ c ∈ s, c.isDigit = true) :
    (s ++ t).dropWhile (· != '.') = t.dropWhile (· != '.') :=
  List.dropWhile_append_of_pos fun c hc => ne_point_of_isDigit (hs c hc)

/-- Digits alone are a numeral. -/
theorem IsNumeral.of_digits {s : Text} (hs : ∀ c ∈ s, c.isDigit = true) (hne : s ≠ []) :
    IsNumeral s := by
  obtain ⟨c, hc⟩ := List.exists_mem_of_ne_nil s hne
  exact ⟨fun d hd => by simp [Expression.isNumeric, hs d hd], ⟨c, hc, hs c hc⟩,
    by simp [count_point_eq_zero hs]⟩

/-- Digits around a point are a numeral, unless there is none on either side. -/
theorem IsNumeral.of_point {whole fraction : Text} (hwhole : ∀ c ∈ whole, c.isDigit = true)
    (hfraction : ∀ c ∈ fraction, c.isDigit = true) (hne : whole ≠ [] ∨ fraction ≠ []) :
    IsNumeral (whole ++ '.' :: fraction) := by
  refine ⟨?_, ?_, ?_⟩
  · intro c hc
    simp only [List.mem_append, List.mem_cons] at hc
    rcases hc with hc | rfl | hc
    · simp [Expression.isNumeric, hwhole c hc]
    · rfl
    · simp [Expression.isNumeric, hfraction c hc]
  · rcases hne with hne | hne
    · obtain ⟨c, hc⟩ := List.exists_mem_of_ne_nil _ hne
      exact ⟨c, by simp [hc], hwhole c hc⟩
    · obtain ⟨c, hc⟩ := List.exists_mem_of_ne_nil _ hne
      exact ⟨c, by simp [hc], hfraction c hc⟩
  · simp [count_point_eq_zero hwhole, count_point_eq_zero hfraction]

/-- Digits alone denote a whole number. -/
theorem ofNumeral_of_digits {s : Text} (hs : ∀ c ∈ s, c.isDigit = true) :
    ofNumeral s = ⟨Nat.ofDigitChars 10 s 0, 0⟩ := by
  have hdrop := dropWhile_point_of_digits (t := []) hs
  rw [List.append_nil] at hdrop
  simp [ofNumeral, List.filter_eq_self.mpr hs, hdrop]

/-- Digits around a point denote their concatenation, scaled by the digits after the point. -/
theorem ofNumeral_of_point {whole fraction : Text} (hwhole : ∀ c ∈ whole, c.isDigit = true)
    (hfraction : ∀ c ∈ fraction, c.isDigit = true) :
    ofNumeral (whole ++ '.' :: fraction) =
      ⟨Nat.ofDigitChars 10 (whole ++ fraction) 0, fraction.length⟩ := by
  have hdrop : (whole ++ '.' :: fraction).dropWhile (· != '.') = '.' :: fraction := by
    simp [dropWhile_point_of_digits hwhole]
  simp [ofNumeral, hdrop, point_not_isDigit, List.filter_eq_self.mpr hwhole,
    List.filter_eq_self.mpr hfraction]

/-- A numeral is its leading digits, or its leading digits, a point and further digits. -/
theorem IsNumeral.split {s : Text} (h : IsNumeral s) :
    s.dropWhile Char.isDigit = [] ∨
      ∃ fraction, s.dropWhile Char.isDigit = '.' :: fraction ∧
        ∀ c ∈ fraction, c.isDigit = true := by
  cases hrest : s.dropWhile Char.isDigit with
  | nil => exact .inl rfl
  | cons c fraction =>
    right
    have hsuffix : c :: fraction <:+ s := hrest ▸ List.dropWhile_suffix _
    have hdigit : c.isDigit = false := by
      have hne : s.dropWhile Char.isDigit ≠ [] := by simp [hrest]
      simpa [hrest] using List.head_dropWhile_not Char.isDigit hne
    have hpoint : c = '.' := by
      have hnumeric := h.numeric c (hsuffix.subset (by simp))
      simpa [Expression.isNumeric, hdigit] using hnumeric
    subst hpoint
    have hcount : fraction.count '.' = 0 := by
      have hle := Nat.le_trans (hsuffix.sublist.count_le '.') h.point
      rw [List.count_cons_self] at hle
      omega
    refine ⟨fraction, rfl, fun d hd => ?_⟩
    have hnumeric := h.numeric d (hsuffix.subset (by simp [hd]))
    have hne : d ≠ '.' := by
      rintro rfl
      exact List.count_eq_zero.mp hcount hd
    simpa [Expression.isNumeric, hne] using hnumeric

private theorem takeWhile_digits (s : Text) : ∀ c ∈ s.takeWhile Char.isDigit, c.isDigit = true :=
  fun _ hc => List.all_eq_true.mp List.all_takeWhile _ hc

/-- The reader of numbers accepts exactly the numerals, and gives the decimal that they denote. -/
theorem parse?_eq_some_iff {s : Text} {d : Decimal} :
    parse? s = some d ↔ IsNumeral s ∧ d = ofNumeral s := by
  have hs : s.takeWhile Char.isDigit ++ s.dropWhile Char.isDigit = s :=
    List.takeWhile_append_dropWhile
  have hwhole := takeWhile_digits s
  generalize hw : s.takeWhile Char.isDigit = whole at hs hwhole
  constructor
  · intro hparse
    unfold parse? at hparse
    rw [hw] at hparse
    split at hparse
    · rename_i hrest
      rw [hrest, List.append_nil] at hs
      subst hs
      simp only [List.isEmpty_iff, Option.ite_none_left_eq_some, Option.some.injEq] at hparse
      obtain ⟨hne, rfl⟩ := hparse
      exact ⟨.of_digits hwhole hne, (ofNumeral_of_digits hwhole).symm⟩
    · rename_i fraction hrest
      rw [hrest] at hs
      subst hs
      simp only [Bool.and_eq_true, List.all_eq_true, Bool.not_eq_true', Bool.and_eq_false_iff,
        List.isEmpty_eq_false_iff, Option.ite_none_right_eq_some, Option.some.injEq] at hparse
      obtain ⟨⟨hfraction, hne⟩, rfl⟩ := hparse
      exact ⟨.of_point hwhole hfraction hne, (ofNumeral_of_point hwhole hfraction).symm⟩
    · simp at hparse
  · rintro ⟨hnumeral, rfl⟩
    obtain ⟨c, hc, hdigit⟩ := hnumeral.digit
    rcases hnumeral.split with hrest | ⟨fraction, hrest, hfraction⟩
    · rw [hrest, List.append_nil] at hs
      subst hs
      have hne : whole ≠ [] := List.ne_nil_of_mem hc
      simp [parse?, hw, hrest, hne, ofNumeral_of_digits hwhole]
    · rw [hrest] at hs
      have hne : ¬(whole = [] ∧ fraction = []) := by
        rintro ⟨rfl, rfl⟩
        simp only [List.nil_append] at hs
        simp only [← hs, List.mem_singleton] at hc
        simp [hc, point_not_isDigit] at hdigit
      subst hs
      have hall : fraction.all Char.isDigit = true := List.all_eq_true.mpr hfraction
      have hempty : (whole.isEmpty && fraction.isEmpty) = false := by simpa using hne
      simp [parse?, hw, hrest, hall, hempty, ofNumeral_of_point hwhole hfraction]

end Decimal

end Calculator
