import Calculator.Text
import Mathlib.Data.List.DropRight

/-!
# Splitting and trimming texts

Texts without a character, joined with this character, are found again by splitting at it. A run of
digits before a text that does not start with a digit is found again by taking all digits. Blanks
are dropped at both ends, and nothing else.
-/

namespace Calculator.Text

/-- The part before a character stands apart from the rest. -/
theorem splitAtChar_append_cons {c : Char} {s : Text} (hs : c ∉ s) (t : Text) :
    splitAtChar c (s ++ c :: t) = s :: splitAtChar c t := by
  apply List.splitOnP_append_cons_of_forall_mem
  · intro x hx
    have hne : x ≠ c := by
      rintro rfl
      exact hs hx
    simpa using hne
  · simp

/-- A text without the character is its only part. -/
theorem splitAtChar_of_not_mem {c : Char} {s : Text} (hs : c ∉ s) : splitAtChar c s = [s] := by
  rw [splitAtChar, ← List.splitOn_eq_splitOnP]
  exact List.splitOn_eq_singleton hs

/-- A text that does not start with a digit. -/
def EndsDigits (s : Text) : Prop := ∀ c ∈ s.head?, c.isDigit = false

theorem endsDigits_cons {c : Char} (hc : c.isDigit = false) (s : Text) : EndsDigits (c :: s) := by
  rintro d ⟨⟩
  exact hc

theorem EndsDigits.takeWhile_append {digits s : Text} (hdigits : ∀ c ∈ digits, c.isDigit = true)
    (hs : EndsDigits s) : (digits ++ s).takeWhile Char.isDigit = digits := by
  rw [List.takeWhile_append_of_pos hdigits]
  cases s with
  | nil => exact List.append_nil digits
  | cons c s => rw [List.takeWhile_cons_of_neg (by simp [hs c rfl]), List.append_nil]

theorem EndsDigits.dropWhile_append {digits s : Text} (hdigits : ∀ c ∈ digits, c.isDigit = true)
    (hs : EndsDigits s) : (digits ++ s).dropWhile Char.isDigit = s := by
  rw [List.dropWhile_append_of_pos hdigits]
  cases s with
  | nil => rfl
  | cons c s => rw [List.dropWhile_cons_of_neg (by simp [hs c rfl])]

/-! ## Blanks at the ends -/

/-- A text without blanks at its end keeps it. -/
theorem trimEnd_append_singleton {c : Char} (hc : isBlank c = false) (s : Text) :
    trimEnd (s ++ [c]) = s ++ [c] :=
  List.rdropWhile_concat_neg isBlank s c (by simp [hc])

/-- A blank at the end of a text is dropped. -/
theorem trim_append_singleton {c : Char} (hc : isBlank c = true) (s : Text) :
    trim (s ++ [c]) = trim s := by
  rw [trim, trim, trimStart, trimStart, List.dropWhile_append]
  split
  · rename_i hempty
    rw [List.isEmpty_iff.mp hempty, List.dropWhile_cons_of_pos hc, List.dropWhile_nil]
  · exact List.rdropWhile_concat_pos isBlank _ c hc

/-- Any blanks at the end of a text are dropped. -/
theorem trim_append_blanks {gap : Text} (hgap : ∀ c ∈ gap, isBlank c = true) (s : Text) :
    trim (s ++ gap) = trim s := by
  induction gap using List.reverseRecOn with
  | nil => rw [List.append_nil]
  | append_singleton gap c ih =>
    rw [List.forall_mem_append, List.forall_mem_singleton] at hgap
    rw [← List.append_assoc, trim_append_singleton hgap.2, ih hgap.1]

theorem trimEnd_append_blanks {gap : Text} (hgap : ∀ c ∈ gap, isBlank c = true) (s : Text) :
    trimEnd (s ++ gap) = trimEnd s := by
  have hreverse : ∀ c ∈ gap.reverse, isBlank c = true := by simpa using hgap
  rw [trimEnd, List.reverse_append, List.dropWhile_append_of_pos hreverse, trimEnd]

/-- What is dropped at the end of a text are blanks. -/
theorem exists_eq_trimEnd_append (s : Text) :
    ∃ gap, s = trimEnd s ++ gap ∧ ∀ c ∈ gap, isBlank c = true :=
  ⟨s.rtakeWhile isBlank, List.rdropWhile_append_rtakeWhile.symm,
    fun _ hc => List.mem_rtakeWhile_imp hc⟩

/-- A text without blanks has nothing to drop. -/
theorem trim_eq_self {s : Text} (hs : ∀ c ∈ s, isBlank c = false) : trim s = s := by
  have hnot : ∀ c ∈ s, ¬isBlank c = true := by simpa using hs
  have hstart : trimStart s = s := List.dropWhile_eq_self_iff.mpr fun _ => hnot _ (by simp)
  rw [trim, hstart]
  exact List.rdropWhile_eq_self_iff.mpr fun _ => hnot _ (by simp)

/-- What has been trimmed has nothing to drop. -/
theorem trim_trim (s : Text) : trim (trim s) = trim s := by
  have hbegins : trim s <+: trimStart s := List.rdropWhile_prefix isBlank _
  have hstart : trimStart (trim s) = trim s := by
    refine List.dropWhile_eq_self_iff.mpr fun hlength => ?_
    have hfirst := List.dropWhile_get_zero_not isBlank s (hlength.trans_le hbegins.length_le)
    rw [hbegins.getElem hlength]
    exact hfirst
  rw [trim, hstart, trim]
  exact List.rdropWhile_idempotent isBlank _

end Calculator.Text
