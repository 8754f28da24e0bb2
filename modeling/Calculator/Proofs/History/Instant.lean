import Calculator.History.Instant
import Calculator.Proofs.Text
import Mathlib.Algebra.Group.Nat.Defs

/-!
# The text of an instant

Every field of an instant is written with a fixed number of digits, save the year, which may have
more of them after a sign, and the fraction, whose point and digits are left out as far as they are
zero. Each reader takes what was written for its field and leaves the rest to the next one.
-/

namespace Calculator

theorem daysInMonth_le (year : Int) (month : Nat) : daysInMonth year month ≤ 31 := by
  unfold daysInMonth
  split
  · split <;> omega
  · split <;> omega

/-- What a valid clock says about each of its fields but the year. -/
theorem Clock.bounds_of_isValid {c : Clock} (h : c.isValid = true) :
    c.date.month ≤ 12 ∧ c.date.day ≤ 31 ∧ c.hour < 24 ∧ c.minute < 60 ∧ c.second ≤ 60 ∧
      c.nanosecond < 1000000000 := by
  simp only [Clock.isValid, Date.isValid, Bool.and_eq_true, decide_eq_true_eq] at h
  have hday := daysInMonth_le c.date.year c.date.month
  omega

/-- Going back no minutes changes nothing. -/
theorem Clock.back_zero {c : Clock} (hhour : c.hour < 24) (hminute : c.minute < 60) :
    c.back 0 = c := by
  have hbefore : ¬((c.hour * 60 + c.minute : Nat) : Int) - 0 < 0 := by omega
  have hafter : ¬1440 ≤ ((c.hour * 60 + c.minute : Nat) : Int) - 0 := by omega
  have htotal : (((c.hour * 60 + c.minute : Nat) : Int) - 0).toNat = c.hour * 60 + c.minute := by
    omega
  rw [Clock.back, if_neg hbefore, if_neg hafter]
  dsimp only
  rw [htotal, show (c.hour * 60 + c.minute) / 60 = c.hour by omega,
    show (c.hour * 60 + c.minute) % 60 = c.minute by omega]

namespace Timestamp

open Text (EndsDigits endsDigits_cons)

theorem padded_isDigit (width n : Nat) : ∀ c ∈ padded width n, c.isDigit = true := by
  intro c hc
  rcases List.mem_append.mp hc with hc | hc
  · rw [List.eq_of_mem_replicate hc]
    rfl
  · exact Nat.isDigit_of_mem_toDigits (by decide) (by decide) hc

theorem padded_ne_nil (width n : Nat) : padded width n ≠ [] :=
  List.append_ne_nil_of_right_ne_nil _ Nat.toDigits_ne_nil

theorem padded_length {width n : Nat} (hwidth : 0 < width) (hn : n < 10 ^ width) :
    (padded width n).length = width := by
  have hle : (Text.ofNat n).length ≤ width :=
    (Nat.length_toDigits_le_iff (by decide) hwidth).mpr hn
  simp only [padded, List.length_append, List.length_replicate]
  omega

theorem ofDigitChars_padded (width n : Nat) : Nat.ofDigitChars 10 (padded width n) 0 = n := by
  rw [padded, Nat.ofDigitChars_append, Nat.ofDigitChars_replicate_zero, Nat.mul_zero, Text.ofNat,
    Nat.ofDigitChars_ten_toDigits]

theorem ofClock?_toClock (t : Timestamp) : ofClock? t.toClock = some t := dif_pos t.valid

namespace Reader

theorem blanks_run {c : Char} (hc : Text.isBlank c = false) (s : Text) :
    blanks.run (c :: s) = some ((), c :: s) := by
  have htrim : Text.trimStart (c :: s) = c :: s := List.dropWhile_cons_of_neg (by simp [hc])
  change some ((), Text.trimStart (c :: s)) = _
  rw [htrim]

theorem isBlank_of_isDigit {c : Char} (hc : c.isDigit = true) : Text.isBlank c = false := by
  simp only [Char.isDigit, Bool.and_eq_true, decide_eq_true_eq, ge_iff_le,
    UInt32.le_iff_toNat_le] at hc
  have hzero : '0'.val.toNat = 48 := rfl
  have hnine : '9'.val.toNat = 57 := rfl
  have hvalue : c.toNat = c.val.toNat := rfl
  simp only [Text.isBlank, Bool.or_eq_false_iff, Bool.and_eq_false_iff, decide_eq_false_iff_not,
    beq_eq_false_iff_ne]
  omega

theorem blanks_run_digits {run : Text} (hne : run ≠ []) (hdigits : ∀ c ∈ run, c.isDigit = true)
    (rest : Text) : blanks.run (run ++ rest) = some ((), run ++ rest) := by
  obtain ⟨c, run, rfl⟩ := List.exists_cons_of_ne_nil hne
  exact blanks_run (isBlank_of_isDigit (hdigits c (by simp))) (run ++ rest)

/-- A reader goes on where the one before it has stopped. -/
theorem bind_run {α β : Type} {reader : Reader α} {next : α → Reader β} {a : α} {s t : Text}
    (h : reader.run s = some (a, t)) : (reader >>= next).run s = (next a).run t := by
  rw [StateT.run_bind, h]
  rfl

theorem get_run (s : Text) : (get : Reader Text).run s = some (s, s) := rfl

theorem set_run (s t : Text) : (set s : Reader Unit).run t = some ((), s) := rfl

theorem next_run (c : Char) (s : Text) : next.run (c :: s) = some (c, s) := rfl

theorem mark_run {c : Char} (hc : Text.isBlank c = false) (s : Text) :
    (mark c).run (c :: s) = some ((), s) := by
  rw [mark, bind_run (blanks_run hc s), bind_run (next_run c s), beq_self_eq_true]
  rfl

/-- Digits are taken as far as they go, or as many as may be taken. -/
theorem digits_run {width : Nat} {run : Text} (rest : Text) (hne : run ≠ [])
    (hdigits : ∀ c ∈ run, c.isDigit = true)
    (hwidth : run.length = width ∨ (run.length ≤ width ∧ EndsDigits rest)) :
    (digits width).run (run ++ rest) = some (run, rest) := by
  have htake : ((run ++ rest).take width).takeWhile Char.isDigit = run := by
    rcases hwidth with hwidth | ⟨hwidth, hrest⟩
    · have hwhole := EndsDigits.takeWhile_append (s := []) hdigits nofun
      rw [List.append_nil] at hwhole
      rwa [List.take_left' hwidth]
    · rw [List.take_append, List.take_of_length_le hwidth]
      apply EndsDigits.takeWhile_append hdigits
      intro c hc
      rw [List.head?_take] at hc
      split at hc
      · cases hc
      · exact hrest c hc
  have hguard : (guard ((!run.isEmpty) = true) : Reader Unit).run (run ++ rest) =
      some ((), run ++ rest) := by
    rw [show (!run.isEmpty) = true by simpa using hne]
    rfl
  rw [digits, bind_run (get_run _)]
  dsimp only
  rw [htake, bind_run hguard]
  change some (run, (run ++ rest).drop run.length) = _
  rw [List.drop_left]

/-- A field of a fixed width is taken whole. -/
theorem number_run {width n : Nat} (hwidth : 0 < width) (hn : n < 10 ^ width) (rest : Text) :
    (number width).run (padded width n ++ rest) = some (n, rest) := by
  have hdigits := digits_run rest (padded_ne_nil width n) (padded_isDigit width n)
    (.inl (padded_length hwidth hn))
  have hblanks := blanks_run_digits (padded_ne_nil width n) (padded_isDigit width n) rest
  rw [number, bind_run hblanks, bind_run hdigits, ofDigitChars_padded]
  rfl

theorem year_run_digit {d : Char} {s run rest : Text} (hd : d.isDigit = true)
    (hrun : (digits 4).run (d :: s) = some (run, rest)) :
    year.run (d :: s) = some ((Nat.ofDigitChars 10 run 0 : Int), rest) := by
  have hne (c : Char) (hc : c.isDigit = false) : d ≠ c := by
    rintro rfl
    rw [hd] at hc
    cases hc
  rw [year, bind_run (blanks_run (isBlank_of_isDigit hd) s), bind_run (get_run _)]
  split
  · rename_i heq
    exact absurd (List.cons.inj heq).1 (hne '-' (by decide))
  · rename_i heq
    exact absurd (List.cons.inj heq).1 (hne '+' (by decide))
  · rw [bind_run hrun]
    rfl

theorem year_run_minus {s run rest : Text} (hrun : (digits s.length).run s = some (run, rest)) :
    year.run ('-' :: s) = some (-(Nat.ofDigitChars 10 run 0 : Int), rest) := by
  rw [year, bind_run (blanks_run rfl s), bind_run (get_run _)]
  refine (bind_run (set_run s _)).trans ?_
  rw [bind_run hrun]
  rfl

theorem year_run_plus {s run rest : Text} (hrun : (digits s.length).run s = some (run, rest)) :
    year.run ('+' :: s) = some ((Nat.ofDigitChars 10 run 0 : Int), rest) := by
  rw [year, bind_run (blanks_run rfl s), bind_run (get_run _)]
  refine (bind_run (set_run s _)).trans ?_
  rw [bind_run hrun]
  rfl

/-- A year is taken up to the hyphen after it. -/
theorem year_run (y : Int) (rest : Text) :
    year.run (yearText y ++ '-' :: rest) = some (y, '-' :: rest) := by
  unfold yearText
  split
  · -- four digits without a sign
    have hrun := digits_run ('-' :: rest) (padded_ne_nil 4 y.toNat)
      (padded_isDigit 4 y.toNat) (.inl (padded_length (by decide) (by omega)))
    have hvalue := ofDigitChars_padded 4 y.toNat
    have hdigits := padded_isDigit 4 y.toNat
    obtain ⟨d, run, hpadded⟩ := List.exists_cons_of_ne_nil (padded_ne_nil 4 y.toNat)
    rw [hpadded] at hrun hvalue hdigits ⊢
    rw [List.cons_append] at hrun ⊢
    rw [year_run_digit (hdigits d (by simp)) hrun, hvalue, Int.toNat_of_nonneg (by omega)]
  · -- a sign and as many digits as there are
    have hends : EndsDigits ('-' :: rest) := endsDigits_cons (by decide) rest
    have hlength : (padded 4 y.natAbs).length ≤ (padded 4 y.natAbs ++ '-' :: rest).length := by
      rw [List.length_append]
      omega
    have hrun := digits_run _ (padded_ne_nil 4 y.natAbs) (padded_isDigit 4 y.natAbs)
      (.inr ⟨hlength, hends⟩)
    have hvalue := ofDigitChars_padded 4 y.natAbs
    split
    · rw [List.cons_append, year_run_minus hrun, hvalue, show -(y.natAbs : Int) = y by omega]
    · rw [List.cons_append, year_run_plus hrun, hvalue, show (y.natAbs : Int) = y by omega]

/-- Digits after a point are taken as a fraction of a second. -/
theorem fraction_run_point {width n : Nat} (hwidth : 0 < width) (hnine : width ≤ 9)
    (hn : n < 10 ^ width) (rest : Text) :
    fraction.run ('.' :: padded width n ++ 'Z' :: rest) =
      some (n * 10 ^ (9 - width), 'Z' :: rest) := by
  have hends : EndsDigits ('Z' :: rest) := endsDigits_cons (by decide) rest
  have hlength := padded_length hwidth hn
  have hle : (padded width n).length ≤ 9 := by omega
  have hrun := digits_run _ (padded_ne_nil width n) (padded_isDigit width n) (.inr ⟨hle, hends⟩)
  simp [fraction, hrun, hlength, ofDigitChars_padded]

/-- A fraction is taken up to the letter after it. -/
theorem fraction_run {nanosecond : Nat} (h : nanosecond < 1000000000) (rest : Text) :
    fraction.run (fractionText nanosecond ++ 'Z' :: rest) = some (nanosecond, 'Z' :: rest) := by
  unfold fractionText
  split
  · rename_i hzero
    rw [hzero]
    rfl
  · split
    · rw [fraction_run_point (by decide) (by decide) (by omega)]
      congr 2
      omega
    · split
      · rw [fraction_run_point (by decide) (by decide) (by omega)]
        congr 2
        omega
      · rw [fraction_run_point (by decide) (by decide) (by omega)]
        congr 2
        omega

theorem divider_run (s : Text) : divider.run ('T' :: s) = some ((), s) := rfl

theorem offset_run (s : Text) : offset.run ('Z' :: s) = some (0, s) := rfl

/-- The text of an instant is taken whole. -/
theorem timestamp_run (t : Timestamp) : timestamp.run t.text = some (t, []) := by
  obtain ⟨hmonth, hday, hhour, hminute, hsecond, hnanosecond⟩ := Clock.bounds_of_isValid t.valid
  have htwo {n : Nat} (hn : n < 100) (rest : Text) := number_run (by decide : 0 < 2) hn rest
  have hmark (c : Char) (hc : Text.isBlank c = false) (rest : Text) := mark_run hc rest
  simp only [text, List.append_assoc, List.cons_append]
  rw [timestamp, bind_run (year_run _ _), bind_run (hmark '-' rfl _),
    bind_run (htwo (by omega) _), bind_run (hmark '-' rfl _), bind_run (htwo (by omega) _),
    bind_run (divider_run _), bind_run (htwo (by omega) _), bind_run (hmark ':' rfl _),
    bind_run (htwo (by omega) _), bind_run (hmark ':' rfl _), bind_run (htwo (by omega) _),
    bind_run (fraction_run hnanosecond _), bind_run (blanks_run rfl _), bind_run (offset_run _)]
  have hend : blanks.run [] = some ((), []) := rfl
  have hguard : (guard (t.toClock.isValid = true) : Reader Unit).run [] = some ((), []) := by
    rw [t.valid]
    rfl
  refine (bind_run hend).trans ((bind_run hguard).trans ?_)
  change ((ofClock? (t.toClock.back 0)).elim failure pure : Reader Timestamp).run [] = _
  rw [Clock.back_zero hhour hminute, ofClock?_toClock]
  rfl

end Reader

/-- **The text of an instant reads back.** -/
theorem parse?_text (t : Timestamp) : parse? t.text = some t := by
  rw [parse?, Reader.timestamp_run]

end Timestamp

end Calculator
