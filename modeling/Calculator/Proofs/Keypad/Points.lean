import Calculator.Proofs.Expression.Points
import Calculator.Proofs.Keypad.Symbols
import Mathlib.Data.List.TakeWhile

/-!
# Points on the scientific keypad

The keypad types a decimal point unless the number at the end of the expression has one. This keeps
every number of the expression at one point at most, also those that erasing reaches again: no other
key types a point, and a result that is taken over has at most one.
-/

namespace Calculator

open Expression (HasSinglePoints HasPointAtEnd isNumeric)

/-! ## Texts without points -/

theorem Function.point_not_mem_name (f : Function) : '.' ∉ f.name := by cases f <;> decide

theorem Decimal.IsFraction.count_point_le {fraction : Text} (h : IsFraction fraction) :
    fraction.count '.' ≤ 1 := by
  cases h with
  | none => exact Nat.zero_le 1
  | @places digits last hdigits hlast _ =>
    have hdigit : ∀ c ∈ digits ++ [last], c.isDigit = true := by
      rw [List.forall_mem_append, List.forall_mem_singleton]
      exact ⟨hdigits, hlast⟩
    have hnone : (digits ++ [last]).count '.' = 0 := List.count_eq_zero.mpr fun hmem =>
      absurd (hdigit '.' hmem) (by decide)
    rw [List.cons_append, List.count_cons_self, hnone]

/-- A display has at most one point. -/
theorem Settings.count_point_scientificDisplay_le (settings : Settings) (s : Text) :
    (settings.scientificDisplay s).count '.' ≤ 1 := by
  have hwords : ∀ display ∈ [Display.undefined, Display.infinite, Display.error],
      display.count '.' ≤ 1 := by decide
  rcases (settings.scientificDisplay_tells s).total with hnumber | hsame | hsame | hsame
  · generalize settings.scientificDisplay s = display at hnumber
    obtain ⟨negative, hwhole, hfraction, -⟩ := hnumber
    have hsign : (if negative then ['-'] else []).count '.' = 0 := by cases negative <;> decide
    have hnone := List.count_eq_zero.mpr (hwhole.not_mem (show '.' ∉ Radix.capitals by decide))
    rw [List.count_append, List.count_append, hsign, hnone]
    simpa using hfraction.count_point_le
  all_goals exact hwords _ (by simp [hsame])

namespace Keypad.Scientific

variable {settings : Settings} {keypad : Scientific} {key : Key}

/-- The digits and points at the end of the expression have a point if the number there has. -/
theorem point_mem_typedNumber_iff :
    keypad.typedNumber.contains '.' = true ↔ HasPointAtEnd keypad.expression := by
  rw [List.contains_iff_mem]
  constructor
  · intro hmem
    refine ⟨keypad.typedNumber.reverse, ?_, ?_, List.mem_reverse.mpr hmem⟩
    · rw [← List.reverse_prefix, List.reverse_reverse]
      exact List.takeWhile_prefix _
    · exact fun c hc => List.mem_takeWhile_imp (List.mem_reverse.mp hc)
  · rintro ⟨run, ⟨before, hbefore⟩, hnumeric, hmem⟩
    have hreverse : ∀ c ∈ run.reverse, isNumeric c = true := by simpa using hnumeric
    rw [typedNumber, ← hbefore, List.reverse_append, List.takeWhile_append_of_pos hreverse]
    exact List.mem_append_left _ (List.mem_reverse.mpr hmem)

theorem pressPoint_of_hasPointAtEnd (h : HasPointAtEnd keypad.expression) :
    keypad.pressPoint = keypad := by
  rw [pressPoint, if_pos (point_mem_typedNumber_iff.mpr h)]

theorem pressPoint_of_not_hasPointAtEnd (h : ¬HasPointAtEnd keypad.expression) :
    keypad.pressPoint = { keypad with expression := keypad.expression ++ ['.'] } := by
  rw [pressPoint, if_neg fun hpoint => h (point_mem_typedNumber_iff.mp hpoint)]

/-! ## One key -/

/-- The numbers of the expression have at most one point each, and so has the result. -/
structure SinglePoints (keypad : Scientific) : Prop where
  expression : HasSinglePoints keypad.expression
  result : keypad.result.count '.' ≤ 1

theorem SinglePoints.pressDigits (h : keypad.SinglePoints) {text : Text}
    (hdigits : ∀ c ∈ text, c.isDigit = true) :
    HasSinglePoints (keypad.pressDigits text).expression := by
  have hnone : '.' ∉ text := fun hmem => absurd (hdigits '.' hmem) (by decide)
  unfold Scientific.pressDigits
  dsimp only
  split
  · exact .of_not_mem hnone
  · exact h.expression.append_of_not_mem hnone

theorem SinglePoints.pressOperator (h : keypad.SinglePoints) {text : Text} (hnone : '.' ∉ text) :
    HasSinglePoints (keypad.pressOperator text).expression := by
  unfold Scientific.pressOperator
  split
  · exact (HasSinglePoints.of_count h.result).append_of_not_mem hnone
  · exact h.expression.append_of_not_mem hnone

theorem SinglePoints.pressFunction (h : keypad.SinglePoints) (f : Function) :
    HasSinglePoints (keypad.pressFunction f).expression := by
  have hopening : '.' ∉ f.name ++ ['('] := by simp [f.point_not_mem_name]
  unfold Scientific.pressFunction
  dsimp only
  split
  · exact (HasSinglePoints.of_not_mem_append hopening (.of_count h.result)).append_of_not_mem
      (by decide)
  · split
    · exact .of_not_mem hopening
    · refine HasSinglePoints.append_of_not_mem (h.expression.append_of_not_mem ?_) hopening
      split <;> decide

theorem SinglePoints.pressConstant (h : keypad.SinglePoints) {symbol : Text}
    (hnone : '.' ∉ symbol) : HasSinglePoints (keypad.pressConstant symbol).expression := by
  unfold Scientific.pressConstant
  split
  · exact .of_not_mem hnone
  · refine HasSinglePoints.append_of_not_mem (h.expression.append_of_not_mem ?_) hnone
    split <;> decide

theorem SinglePoints.pressPoint (h : keypad.SinglePoints) :
    HasSinglePoints keypad.pressPoint.expression := by
  by_cases hend : HasPointAtEnd keypad.expression
  · rw [pressPoint_of_hasPointAtEnd hend]
    exact h.expression
  · rw [pressPoint_of_not_hasPointAtEnd hend]
    exact h.expression.append_point hend

theorem SinglePoints.eraseLast (h : keypad.SinglePoints) :
    HasSinglePoints keypad.eraseLast.expression := by
  unfold Scientific.eraseLast
  dsimp only
  split
  · exact h.expression.of_infix (List.dropLast_prefix _).isInfix
  · exact .of_not_mem (show '.' ∉ initial by decide)

/-- Every key of the keypad keeps all numbers at one point, whatever the settings are. -/
theorem SinglePoints.press (h : keypad.SinglePoints) (settings : Settings)
    (hkey : key.IsOnKeypad ∨ key = .digits []) : (press settings keypad key).SinglePoints := by
  refine ⟨?_, ?_⟩
  · cases key with
    | digits text =>
      refine h.pressDigits ?_
      rcases hkey with hkey | hnone
      · exact hkey.2
      · cases hnone
        exact nofun
    | operator text =>
      obtain ⟨c, hc, rfl⟩ : ∃ c ∈ signs, text = [c] := by simpa [Key.IsOnKeypad] using hkey
      refine h.pressOperator fun hmem => ?_
      rw [← List.mem_singleton.mp hmem] at hc
      exact absurd hc (by decide)
    | function f => exact h.pressFunction f
    | constant symbol =>
      have hsymbol : symbol = ['π'] ∨ symbol = ['e'] := by simpa [Key.IsOnKeypad] using hkey
      rcases hsymbol with rfl | rfl
      · exact h.pressConstant (by decide)
      · exact h.pressConstant (by decide)
    | point => exact h.pressPoint
    | line _ | reopen _ => simp [Key.IsOnKeypad] at hkey
    | erase => exact h.eraseLast
    | clear => exact .of_not_mem (show '.' ∉ initial by decide)
    | calculate => exact h.expression
  · rcases press_result_cases settings keypad key with hsame | hinitial | ⟨s, hshown⟩
    · rw [hsame]
      exact h.result
    · rw [hinitial]
      decide
    · rw [hshown]
      exact settings.count_point_scientificDisplay_le s

/-! ## All keys -/

/-- The keypad after some keys, each pressed with settings of its own, from its first state on. -/
def runWith (steps : List (Settings × Key)) : Scientific :=
  steps.foldl (fun keypad step => press step.1 keypad step.2) {}

theorem singlePoints_runWith {steps : List (Settings × Key)}
    (hkeys : ∀ step ∈ steps, step.2.IsOnKeypad ∨ step.2 = .digits []) :
    (runWith steps).SinglePoints := by
  induction steps using List.reverseRecOn with
  | nil => exact ⟨.of_not_mem (by decide), by decide⟩
  | append_singleton steps step ih =>
    rw [List.forall_mem_append, List.forall_mem_singleton] at hkeys
    rw [runWith, List.foldl_append, List.foldl_cons, List.foldl_nil]
    exact (ih hkeys.1).press step.1 hkeys.2

/-- **No number that is typed has two points.** Whichever keys are pressed, with whichever settings,
a run of digits and points anywhere in the expression has at most one point. The key for the point
types one exactly if the digits and points at the end of the expression have none, and otherwise
changes nothing. -/
theorem hasSinglePoints_of_keys (steps : List (Settings × Key))
    (hkeys : ∀ step ∈ steps, step.2.IsOnKeypad ∨ step.2 = .digits []) :
    HasSinglePoints (runWith steps).expression ∧
    ((runWith steps).pressPoint.expression = (runWith steps).expression ++ ['.'] ↔
      ¬HasPointAtEnd (runWith steps).expression) ∧
    (HasPointAtEnd (runWith steps).expression → (runWith steps).pressPoint = runWith steps) := by
  refine ⟨(singlePoints_runWith hkeys).expression, ⟨fun hpoint hend => ?_, fun hend => ?_⟩,
    pressPoint_of_hasPointAtEnd⟩
  · rw [pressPoint_of_hasPointAtEnd hend] at hpoint
    simp at hpoint
  · rw [pressPoint_of_not_hasPointAtEnd hend]

/-- A result with a point is taken over and followed by a lone point, after which none is typed. -/
theorem hasSinglePoints_of_keys_product :
    let keys := [Key.digits ['1'], .point, .digits ['5'], .operator ['*'], .digits ['3'],
      .calculate, .operator ['+'], .point]
    let keypad := runWith (keys.map (({} : Settings), ·))
    keypad.expression = "4.5+.".toList ∧ HasSinglePoints keypad.expression ∧
      keypad.pressPoint = keypad := by
  intro keys keypad
  have hkeys : ∀ step ∈ keys.map (({} : Settings), ·),
      step.2.IsOnKeypad ∨ step.2 = .digits [] := by
    simp [keys, Key.IsOnKeypad, signs]
  have hexpression : keypad.expression = "4.5+.".toList := by decide +kernel
  obtain ⟨hpoints, -, hkept⟩ := hasSinglePoints_of_keys _ hkeys
  have hend : HasPointAtEnd keypad.expression := by
    refine ⟨['.'], ⟨"4.5+".toList, hexpression.symm⟩, ?_, List.mem_singleton_self '.'⟩
    exact List.forall_mem_singleton.mpr (by decide)
  exact ⟨hexpression, hpoints, hkept hend⟩

end Keypad.Scientific

end Calculator
