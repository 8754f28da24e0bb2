import Calculator.Keypad.Scientific
import Mathlib.Data.List.Induction

/-!
# Which expression a shown result belongs to

An operator or a function pressed while a value is shown goes on from that value, in place of the
expression. This is right as long as the value is that of the expression. Eight of the ten keys take
care of it: they reset the result, show the result of the expression anew, or change the expression
only while no value is shown. Erasing and the decimal point edit the expression and keep the result.
This file proves that these two keys are the only way to a result of another expression.
-/

namespace Calculator.Keypad

/-- The keys of the scientific calculator. -/
inductive Key where
  | digits (text : Text)
  | operator (text : Text)
  | function (f : Function)
  | constant (symbol : Text)
  | point
  | line (text : Text)
  | erase
  | clear
  | reopen (expression : Text)
  | calculate
  deriving DecidableEq

/-- Erasing and the decimal point edit the expression and leave the result. -/
def Key.KeepsResult (key : Key) : Prop := key = .erase ∨ key = .point

namespace Scientific

/-- The keypad after a key. -/
def press (settings : Settings) (keypad : Scientific) : Key → Scientific
  | .digits text => keypad.pressDigits text
  | .operator text => keypad.pressOperator text
  | .function f => keypad.pressFunction f
  | .constant symbol => keypad.pressConstant symbol
  | .point => keypad.pressPoint
  | .line text => keypad.typeLine text
  | .erase => keypad.eraseLast
  | .clear => keypad.clear
  | .reopen expression => keypad.reopen settings expression
  | .calculate => (keypad.calculate settings).1

/-- The keypad after some keys, from its first state on. -/
def run (settings : Settings) (keys : List Key) : Scientific := keys.foldl (press settings) {}

/-- The result reads `0` or `Error`, or is that of the expression. -/
def ResultBelongs (settings : Settings) (keypad : Scientific) : Prop :=
  keypad.result = initial ∨ keypad.result = Display.error ∨
    keypad.result = settings.scientificDisplay keypad.expression

instance (settings : Settings) (keypad : Scientific) :
    Decidable (keypad.ResultBelongs settings) := inferInstanceAs (Decidable (_ ∨ _ ∨ _))

variable {settings : Settings} {keypad : Scientific}

theorem run_append_singleton (keys : List Key) (key : Key) :
    run settings (keys ++ [key]) = press settings (run settings keys) key := by
  simp [run]

/-- Where no value is shown, the result reads `0` or `Error`. -/
theorem showsValue_eq_false_iff :
    keypad.showsValue = false ↔ keypad.result = initial ∨ keypad.result = Display.error := by
  simp [showsValue, ← or_iff_not_imp_left]

theorem ResultBelongs.of_not_showsValue (h : keypad.showsValue = false) :
    keypad.ResultBelongs settings := by
  rcases showsValue_eq_false_iff.mp h with h | h
  · exact .inl h
  · exact .inr (.inl h)

/-- A value that is shown and belongs to the expression is its display. -/
theorem ResultBelongs.result_eq (h : keypad.ResultBelongs settings)
    (hshows : keypad.showsValue = true) :
    keypad.result = settings.scientificDisplay keypad.expression := by
  have hnot : ¬(keypad.result = initial ∨ keypad.result = Display.error) := by
    rw [← showsValue_eq_false_iff, hshows]
    exact Bool.noConfusion
  rcases h with h | h | h
  · exact absurd (.inl h) hnot
  · exact absurd (.inr h) hnot
  · exact h

theorem press_result_of_keepsResult {key : Key} (hkey : key.KeepsResult) :
    (press settings keypad key).result = keypad.result := by
  rcases hkey with rfl | rfl
  · rfl
  · simp only [press, pressPoint]
    split <;> rfl

/-- Pressing an operator either goes on from the shown value and resets the result, or keeps a
result that is no value. -/
theorem pressOperator_belongs (operator : Text) :
    (keypad.pressOperator operator).ResultBelongs settings := by
  unfold pressOperator
  split
  · exact .inl rfl
  · rename_i hshows
    exact .of_not_showsValue (by simpa [showsValue] using hshows)

/-- Pressing a function does the same. -/
theorem pressFunction_belongs (f : Function) :
    (keypad.pressFunction f).ResultBelongs settings := by
  unfold pressFunction
  dsimp only
  split
  · exact .inl rfl
  · rename_i hshows
    split
    · exact .of_not_showsValue (by simpa [showsValue] using hshows)
    · exact .of_not_showsValue (by simpa [showsValue] using hshows)

theorem pressConstant_belongs (symbol : Text) :
    (keypad.pressConstant symbol).ResultBelongs settings := by
  unfold pressConstant
  split
  · exact .inl rfl
  · exact .inl rfl

/-- A key that does not keep the result makes it belong to the expression, whatever came before. -/
theorem press_belongs {key : Key} (hkey : ¬key.KeepsResult) :
    (press settings keypad key).ResultBelongs settings := by
  cases key with
  | digits text => exact .inl rfl
  | operator text => exact pressOperator_belongs text
  | function f => exact pressFunction_belongs f
  | constant symbol => exact pressConstant_belongs symbol
  | point => exact absurd (.inr rfl) hkey
  | line text => exact .inl rfl
  | erase => exact absurd (.inl rfl) hkey
  | clear => exact .inl rfl
  | reopen expression => exact .inr (.inr rfl)
  | calculate => exact .inr (.inr rfl)

/-- After a key that keeps the result, the result belongs to the edited expression exactly if no
value is shown or the edit leaves the display of the expression as it was. -/
theorem press_belongs_iff {key : Key} (hkey : key.KeepsResult) :
    (press settings keypad key).ResultBelongs settings ↔
      (keypad.showsValue = true →
        settings.scientificDisplay (press settings keypad key).expression = keypad.result) := by
  have hresult : (press settings keypad key).result = keypad.result :=
    press_result_of_keepsResult hkey
  have hshows : (press settings keypad key).showsValue = keypad.showsValue := by
    rw [showsValue, hresult, showsValue]
  constructor
  · intro h hvalue
    rw [← hresult, h.result_eq (hshows.trans hvalue)]
  · intro h
    cases hvalue : keypad.showsValue with
    | false => exact .of_not_showsValue (hshows.trans hvalue)
    | true => exact .inr (.inr (hresult.trans (h hvalue).symm))

/-- **When a result on display belongs to the expression.** It does throughout a run exactly if
every erasing and every decimal point that is pressed while a value is shown leaves the display of
the expression as it was. As long as it does, an operator and a function go on from the value of the
expression. -/
theorem resultBelongs_throughout_iff (settings : Settings) (keys : List Key) :
    ((∀ earlier, earlier <+: keys → (run settings earlier).ResultBelongs settings) ↔
      ∀ earlier key, earlier ++ [key] <+: keys → key.KeepsResult →
        (run settings earlier).showsValue = true →
        settings.scientificDisplay (run settings (earlier ++ [key])).expression =
          (run settings earlier).result) ∧
    ∀ keypad : Scientific, keypad.ResultBelongs settings → keypad.showsValue = true →
      (∀ operator, (keypad.pressOperator operator).expression =
        settings.scientificDisplay keypad.expression ++ operator) ∧
      ∀ f : Function, (keypad.pressFunction f).expression =
        f.name ++ '(' :: settings.scientificDisplay keypad.expression ++ [')'] := by
  refine ⟨⟨?_, ?_⟩, ?_⟩
  · intro h earlier key hprefix hkey hshows
    have hbelongs := h (earlier ++ [key]) hprefix
    rw [run_append_singleton] at hbelongs ⊢
    exact (press_belongs_iff hkey).mp hbelongs hshows
  · -- only the last key matters: all others make the result belong, whatever came before
    intro h earlier hprefix
    rcases List.eq_nil_or_concat earlier with rfl | ⟨before, key, rfl⟩
    · exact .inl rfl
    · rw [List.concat_eq_append] at hprefix ⊢
      rw [run_append_singleton]
      by_cases hkey : key.KeepsResult
      · rw [press_belongs_iff hkey, ← run_append_singleton]
        exact h before key hprefix hkey
      · exact press_belongs hkey
  · intro keypad hbelongs hshows
    have hresult := hbelongs.result_eq hshows
    constructor
    · intro operator
      simp [pressOperator, hshows, hresult]
    · intro f
      simp [pressFunction, hshows, hresult]

/-- After `12` is calculated, the point leaves the display as it was, and the operator goes on from
it. -/
theorem resultBelongs_after_point :
    (run {} [.digits ['1', '2'], .calculate, .point]).ResultBelongs {} ∧
      (run {} [.digits ['1', '2'], .calculate, .point]).showsValue = true ∧
      ((run {} [.digits ['1', '2'], .calculate, .point]).pressOperator ['+']).expression =
        Settings.scientificDisplay {} ['1', '2', '.'] ++ ['+'] := by
  have hkeeps : ∀ earlier key, earlier ++ [key] <+: [.digits ['1', '2'], .calculate, .point] →
      key.KeepsResult → (run {} earlier).showsValue = true →
      Settings.scientificDisplay {} (run {} (earlier ++ [key])).expression =
        (run {} earlier).result := by
    rintro earlier key ⟨later, hkeys⟩ hkey _
    rcases earlier with _ | ⟨first, _ | ⟨second, _ | ⟨third, rest⟩⟩⟩
    · cases hkeys
      rcases hkey with hkey | hkey <;> cases hkey
    · cases hkeys
      rcases hkey with hkey | hkey <;> cases hkey
    · cases hkeys
      decide +kernel
    · simp at hkeys
  have hbelongs := (resultBelongs_throughout_iff {} [.digits ['1', '2'], .calculate, .point]).1.mpr
    hkeeps _ (List.prefix_refl _)
  have hshows : (run {} [.digits ['1', '2'], .calculate, .point]).showsValue = true := by
    decide +kernel
  refine ⟨hbelongs, hshows, ?_⟩
  exact ((resultBelongs_throughout_iff {} []).2 _ hbelongs hshows).1 ['+']

/-- After `12` is calculated, erasing leaves the expression `1` with the result `12`, from which an
operator goes on. -/
theorem erase_keeps_result_of_other_expression :
    ¬(run {} [.digits ['1', '2'], .calculate, .erase]).ResultBelongs {} ∧
      (run {} [.digits ['1', '2'], .calculate, .erase, .operator ['+']]).expression =
        ['1', '2', '+'] := by
  decide +kernel

end Scientific

end Calculator.Keypad
