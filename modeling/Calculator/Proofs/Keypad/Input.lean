import Calculator.Keypad.Programmer
import Calculator.Proofs.Radix.Conversion

/-!
# What the programmer keypad holds

The input is a text of capital digits, operators and brackets, or it is the display `Error` of the
last calculation. A digit replaces `Error` and a base makes it `0`, but an operator is typed after
it and erasing shortens it. This file proves that these two keys are the only way to an input that
is neither.
-/

namespace Calculator.Keypad.Programmer

/-- The keys of the programmer calculator. -/
inductive Key where
  | digit (c : Char)
  | operator (c : Char)
  | line (text : Text)
  | base (r : Radix)
  | erase
  | clear
  | reopen (stored : Text)
  | calculate
  deriving DecidableEq

/-- A key of the keypad itself. Whole lines and kept expressions come from elsewhere. -/
def Key.IsOnKeypad : Key → Prop
  | .line _ | .reopen _ => False
  | _ => True

/-- The keys that edit the input and never start it over: the operators and brackets, and
erasing. -/
def Key.EditsInput : Key → Prop
  | .operator c => Radix.isOperator c = true
  | .erase => True
  | _ => False

/-- The keypad after a key. A key that is refused changes nothing. -/
def press (keypad : Programmer) : Key → Programmer
  | .digit c => (keypad.pressDigit? c).getD keypad
  | .operator c => (keypad.pressOperator? c).getD keypad
  | .line text => keypad.typeLine text
  | .base r => keypad.activate r
  | .erase => keypad.eraseLast
  | .clear => keypad.clear
  | .reopen stored => keypad.reopen stored
  | .calculate => keypad.calculate.1

/-- The keypad after some keys, from its first state in a base on. -/
def run (r : Radix) (keys : List Key) : Programmer := keys.foldl press { radix := r }

/-- A text that is not empty and made of capital digits of a base, operators and brackets. -/
def IsInput (r : Radix) (input : Text) : Prop :=
  input ≠ [] ∧ ∀ c ∈ input, c ∈ Radix.capitals.take r.base ∨ c ∈ Radix.operators

/-- The input is such a text or reads `Error`. -/
def HoldsInput (keypad : Programmer) : Prop :=
  keypad.input = Display.error ∨ IsInput keypad.radix keypad.input

/-- An input that reads `Error` is also one that the next digit replaces. -/
def IsReady (keypad : Programmer) : Prop :=
  (keypad.input = Display.error ∧ keypad.replaces = true) ∨ IsInput keypad.radix keypad.input

variable {keypad : Programmer} {r : Radix} {input : Text}

theorem run_append_singleton (keys : List Key) (key : Key) :
    run r (keys ++ [key]) = press (run r keys) key := by
  simp [run]

theorem IsReady.holdsInput (h : keypad.IsReady) : keypad.HoldsInput := h.imp_left And.left

/-! ## Inputs -/

theorem isInput_initial (r : Radix) : IsInput r initial := by
  refine ⟨by decide, fun c hc => .inl ?_⟩
  rw [List.mem_singleton.mp hc]
  cases r <;> decide

/-- The letters of `Error` are no digits. -/
theorem not_isInput_of_mem (h : 'r' ∈ input) : ¬IsInput r input := by
  intro hinput
  have hdigits : 'r' ∉ Radix.capitals := by decide
  rcases hinput.2 'r' h with hdigit | hoperator
  · exact hdigits (List.mem_of_mem_take hdigit)
  · exact absurd hoperator (by decide)

theorem IsInput.append (h : IsInput r input) {c : Char}
    (hc : c ∈ Radix.capitals.take r.base ∨ c ∈ Radix.operators) : IsInput r (input ++ [c]) :=
  ⟨List.append_ne_nil_of_left_ne_nil h.1 _,
    List.forall_mem_append.mpr ⟨h.2, List.forall_mem_singleton.mpr hc⟩⟩

/-- The capital of a digit is a digit of the same base. -/
theorem toUpper_mem_capitals {c : Char} (hc : r.hasDigit c = true) :
    c.toUpper ∈ Radix.capitals.take r.base := by
  revert c
  apply Radix.forall_hasDigit
  cases r <;> decide

/-- An integer that is written in a base is an input. -/
theorem isInput_render (r : Radix) (n : Int64) : IsInput r (r.render n) := by
  have hinteger := r.isInteger_render n
  generalize r.render n = display at hinteger ⊢
  refine ⟨hinteger.ne_nil, ?_⟩
  obtain ⟨negative, hdigits, -⟩ := hinteger
  rw [List.forall_mem_append]
  refine ⟨?_, fun c hc => .inl (hdigits.capital c hc)⟩
  cases negative
  · exact nofun
  · exact List.forall_mem_singleton.mpr (.inr (by decide))

/-- A display that does not read `Error` is an integer. -/
theorem isInput_programmerDisplay (r : Radix) (s : Text) :
    programmerDisplay r s = Display.error ∨ IsInput r (programmerDisplay r s) := by
  by_cases herror : programmerDisplay r s = Display.error
  · exact .inl herror
  · obtain ⟨n, hn⟩ := exists_programmerDisplay_eq_render herror
    rw [hn]
    exact .inr (isInput_render r n)

/-! ## One key -/

/-- A digit of the base is typed as a capital, in place of a lone zero or of an input that it
replaces. -/
theorem press_digit {c : Char} (hc : keypad.radix.hasDigit c = true) :
    keypad.press (.digit c) =
      { input := (if keypad.input = initial || keypad.replaces then [] else keypad.input) ++
          [c.toUpper], radix := keypad.radix } := by
  rw [press, pressDigit?, if_pos hc, Option.getD_some]

/-- An operator is typed after the input, which the next digit then does not replace. -/
theorem press_operator {c : Char} (hc : Radix.isOperator c = true) :
    keypad.press (.operator c) =
      { keypad with input := keypad.input ++ [c], replaces := false } := by
  rw [press, pressOperator?, if_pos hc, Option.getD_some]

/-- Erasing never leaves an empty input. -/
theorem eraseLast_input_ne_nil (keypad : Programmer) : keypad.eraseLast.input ≠ [] := by
  unfold eraseLast
  dsimp only
  split
  · rw [← List.length_pos_iff, List.length_dropLast]
    omega
  · exact List.cons_ne_nil _ _

theorem isReady_pressDigit {c : Char} (h : keypad.IsReady) :
    ((keypad.pressDigit? c).getD keypad).IsReady := by
  unfold pressDigit?
  split
  · rename_i hc
    right
    have hdigit := toUpper_mem_capitals hc
    dsimp only [Option.getD_some]
    split
    · exact ⟨List.cons_ne_nil _ _, List.forall_mem_singleton.mpr (.inl hdigit)⟩
    · rename_i hkept
      rcases h with ⟨-, hreplaces⟩ | hinput
      · simp [hreplaces] at hkept
      · exact hinput.append (.inl hdigit)
  · exact h

theorem isReady_pressOperator {c : Char} (h : keypad.IsReady)
    (hinput : Radix.isOperator c = true → keypad.input ≠ Display.error) :
    ((keypad.pressOperator? c).getD keypad).IsReady := by
  unfold pressOperator?
  split
  · rename_i hc
    rcases h with ⟨herror, -⟩ | hready
    · exact absurd herror (hinput hc)
    · exact .inr (hready.append (.inr (Radix.isOperator_iff.mp hc)))
  · exact h

theorem isReady_activate (h : keypad.IsReady) (r : Radix) : (keypad.activate r).IsReady := by
  unfold activate
  split
  · exact h
  · exact .inr (isInput_render r _)

theorem isReady_eraseLast (h : keypad.IsReady) (hinput : keypad.input ≠ Display.error) :
    keypad.eraseLast.IsReady := by
  rcases h with ⟨herror, -⟩ | hready
  · exact absurd herror hinput
  refine .inr ⟨keypad.eraseLast_input_ne_nil, ?_⟩
  unfold eraseLast
  dsimp only
  split
  · exact fun c hc => hready.2 c (List.dropLast_subset _ hc)
  · exact (isInput_initial _).2

/-- A key keeps the input ready, unless it edits the display `Error`. -/
theorem IsReady.press {key : Key} (h : keypad.IsReady) (hkey : key.IsOnKeypad)
    (hinput : key.EditsInput → keypad.input ≠ Display.error) : (keypad.press key).IsReady := by
  cases key with
  | digit c => exact isReady_pressDigit h
  | operator c => exact isReady_pressOperator h hinput
  | line text | reopen text => exact hkey.elim
  | base r => exact isReady_activate h r
  | erase => exact isReady_eraseLast h (hinput trivial)
  | clear => exact .inr (isInput_initial _)
  | calculate => exact (isInput_programmerDisplay keypad.radix keypad.input).imp_left (⟨·, rfl⟩)

/-- An edit of the display `Error` is no input. -/
theorem not_holdsInput_press {key : Key} (hkey : key.EditsInput)
    (herror : keypad.input = Display.error) : ¬(keypad.press key).HoldsInput := by
  have hpart (hne : (keypad.press key).input ≠ Display.error)
      (hmem : 'r' ∈ (keypad.press key).input) : ¬(keypad.press key).HoldsInput := by
    rintro (hsame | hinput)
    · exact hne hsame
    · exact not_isInput_of_mem hmem hinput
  cases key with
  | operator c =>
    have hoperator : Radix.isOperator c = true := hkey
    have hpressed : (keypad.press (.operator c)).input = Display.error ++ [c] := by
      rw [press_operator hoperator, herror]
    apply hpart
    · rw [hpressed]
      exact fun h => absurd (congrArg List.length h) (by simp)
    · rw [hpressed]
      exact List.mem_append_left _ (by decide)
  | erase =>
    have hpressed : (keypad.press .erase).input = Display.error.dropLast := by
      rw [press, eraseLast, herror]
      rfl
    apply hpart
    · rw [hpressed]
      decide
    · rw [hpressed]
      decide
  | digit c | line text | base r | clear | reopen stored | calculate => exact hkey.elim

/-! ## All keys -/

/-- **What the input is made of.** Throughout a run it reads `Error` or is made of capital digits of
the active base, operators and brackets exactly if no operator or bracket and no erasing is pressed
while it reads `Error`. -/
theorem holdsInput_throughout_iff (r : Radix) {keys : List Key}
    (hkeys : ∀ key ∈ keys, key.IsOnKeypad) :
    (∀ earlier, earlier <+: keys → (run r earlier).HoldsInput) ↔
      ∀ earlier key, earlier ++ [key] <+: keys → key.EditsInput →
        (run r earlier).input ≠ Display.error := by
  constructor
  · intro hholds earlier key hearlier hkey herror
    have hnot := not_holdsInput_press hkey herror
    rw [← run_append_singleton] at hnot
    exact hnot (hholds _ hearlier)
  · intro hedits earlier hearlier
    have hready : (run r earlier).IsReady := by
      induction earlier using List.reverseRecOn with
      | nil => exact .inr (isInput_initial r)
      | append_singleton earlier key ih =>
        rw [run_append_singleton]
        exact (ih ((List.prefix_append _ _).trans hearlier)).press
          (hkeys key (hearlier.subset (by simp))) (hedits earlier key hearlier)
    exact hready.holdsInput

/-- A division by zero shows `Error`, and the next digit starts a new input. -/
theorem holdsInput_throughout_digit :
    (∀ earlier, earlier <+: [.digit '1', .operator '/', .digit '0', .calculate, .digit 'f'] →
      (run .hex earlier).HoldsInput) ∧
    (run .hex [.digit '1', .operator '/', .digit '0', .calculate]).input = Display.error ∧
    (run .hex [.digit '1', .operator '/', .digit '0', .calculate, .digit 'f']).input = ['F'] := by
  refine ⟨(holdsInput_throughout_iff .hex (by simp [Key.IsOnKeypad])).mpr ?_, by decide +kernel,
    by decide +kernel⟩
  rintro earlier key ⟨later, hsplit⟩ hkey hshown
  have hlast : ∀ n < 5,
      (run .hex ([.digit '1', .operator '/', .digit '0', .calculate, .digit 'f'].take n)).input =
        Display.error → n = 4 := by
    decide +kernel
  have hlength := congrArg List.length hsplit
  simp only [List.length_append, List.length_cons, List.length_nil] at hlength
  have htaken : earlier = [Key.digit '1', .operator '/', .digit '0', .calculate, .digit 'f'].take
      earlier.length := by rw [← hsplit, List.append_assoc, List.take_left]
  rw [htaken] at hshown
  have hfour := hlast earlier.length (by omega) hshown
  rw [htaken, hfour] at hsplit
  cases hsplit
  exact hkey

/-- After a division by zero, an operator is typed after the display `Error`, which stays in the
expression. -/
theorem operator_extends_error :
    let keys := [Key.digit '1', .operator '/', .digit '0', .calculate, .operator '+']
    (∀ key ∈ keys, key.IsOnKeypad) ∧ (run .dec keys).input = "Error+".toList ∧
      ¬(run .dec keys).HoldsInput := by
  intro keys
  have hshown : (run .dec [.digit '1', .operator '/', .digit '0', .calculate]).input =
      Display.error := by decide +kernel
  have hedits : (Key.operator '+').EditsInput := show Radix.isOperator '+' = true by decide
  have hnot := not_holdsInput_press hedits hshown
  rw [← run_append_singleton] at hnot
  exact ⟨by simp [keys, Key.IsOnKeypad], by decide +kernel, hnot⟩

end Calculator.Keypad.Programmer
