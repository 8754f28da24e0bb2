import Calculator.Proofs.Console.Status
import Calculator.Proofs.History.Tag
import Calculator.Proofs.Radix.Runs

/-!
# Reopening a kept calculation

A kept calculation of the programmer calculator is reopened from its text alone, which names the
base and has the blanks around the expression trimmed. Nothing is lost by this: an expression with
blanks in it has no result, so none is kept.
-/

namespace Calculator

namespace Radix

/-- No digit of any base is blank. -/
theorem isBlank_of_hasDigit {r : Radix} {c : Char} (hc : r.hasDigit c = true) :
    Text.isBlank c = false := by
  revert c
  apply forall_hasDigit
  cases r <;> decide

/-- An expression whose literals are converted has no blanks. -/
theorem isBlank_of_toBaseTen {r : Radix} {s t : Text} (h : r.toBaseTen s = .ok t) :
    ∀ c ∈ s, Text.isBlank c = false := by
  have hoperators : operators.all (!Text.isBlank ·) = true := by decide
  intro c hc
  rcases (rewritten_of_toBaseTen h).hasDigit_or_mem_operators c hc with hdigit | hoperator
  · exact isBlank_of_hasDigit hdigit
  · simpa using List.all_eq_true.mp hoperators c hoperator

end Radix

/-- An expression with a result has nothing to trim. -/
theorem trim_of_programmerDisplay_ne {r : Radix} {s : Text}
    (h : programmerDisplay r s ≠ Display.error) : Text.trim s = s := by
  cases hconverted : r.toBaseTen s with
  | ok t => exact Text.trim_eq_self (Radix.isBlank_of_toBaseTen hconverted)
  | error failure =>
    rw [programmerDisplay, programmerOutcome, programmerValue, hconverted] at h
    exact absurd rfl h

namespace Keypad.Programmer

/-- **A kept calculation is reopened as it was.** Whatever a keypad in another state shows,
reopening the kept expression brings back the base of the calculation and its result, as the input
too: the keypad is as it was after the calculation. -/
theorem reopen_calculate (keypad : Programmer) {record : Record}
    (h : keypad.calculate.2 = some record) (stamp : Stamp) (other : Programmer) :
    (other.reopen (record.stamp stamp).expression).radix = keypad.radix ∧
    (other.reopen (record.stamp stamp).expression).result = (record.stamp stamp).result ∧
    (other.reopen (record.stamp stamp).expression).input = (record.stamp stamp).result ∧
    other.reopen (record.stamp stamp).expression = keypad.calculate.1 := by
  rw [calculate_snd] at h
  split at h
  · cases h
  · rename_i hshown
    cases h
    have huntagged : Record.untagged (Record.tagged keypad.input keypad.radix) =
        (keypad.input, keypad.radix) := by
      rw [Record.untagged_tagged, trim_of_programmerDisplay_ne hshown]
    have hreopened : other.reopen (Record.tagged keypad.input keypad.radix) =
        .showing (programmerDisplay keypad.radix keypad.input) keypad.radix := by
      rw [reopen, huntagged]
    change (other.reopen (Record.tagged keypad.input keypad.radix)).radix = _ ∧
      (other.reopen (Record.tagged keypad.input keypad.radix)).result = _ ∧
      (other.reopen (Record.tagged keypad.input keypad.radix)).input = _ ∧
      other.reopen (Record.tagged keypad.input keypad.radix) = _
    rw [hreopened]
    exact ⟨rfl, rfl, rfl, rfl⟩

/-- A number in base sixteen that reads as the name of a base, in a bracket that is left open. -/
theorem reopen_calculate_hex :
    let keypad : Programmer := { input := "1+(DEC".toList, radix := .hex }
    let record : Record := .programmer "1+(DEC".toList .hex "DED".toList
    let stamp : Stamp := ⟨⟨1⟩, ⟨⟨⟨2024, 5, 2⟩, 12, 0, 0, 0⟩, by decide⟩⟩
    keypad.calculate.2 = some record ∧
    Programmer.reopen { radix := .bin, replaces := true } (record.stamp stamp).expression =
      { input := "DED".toList, result := "DED".toList, radix := .hex, replaces := true } := by
  intro keypad record stamp
  have hkept : keypad.calculate.2 = some record := by decide +kernel
  obtain ⟨hradix, hresult, hinput, hreopened⟩ :=
    reopen_calculate keypad hkept stamp { radix := .bin, replaces := true }
  refine ⟨hkept, ?_⟩
  rw [hreopened]
  decide +kernel

end Keypad.Programmer

end Calculator
