import Calculator.Proofs.Keypad.Bases

/-!
# Which inputs a digit replaces

A calculation and a reopening put a computed value into the input, and the next digit starts a new
input in its place. Bases write the value anew, and refused keys leave it as it is. Every other key
makes the input one that is being edited, to which digits are appended, except for erasing: what it
leaves of a computed value is still replaced. This file proves that this is the only way in which a
digit throws away an input that has been edited.
-/

namespace Calculator.Keypad.Programmer

variable {keypad : Programmer} {r : Radix} {keys : List Key} {key : Key} {c : Char}

/-- The keys that put a computed value into the input. -/
def Key.Computes : Key → Prop
  | .calculate | .reopen _ => True
  | _ => False

/-- A key is refused: a character that is no digit of the active base, or none of the operators and
brackets. -/
def Refuses (keypad : Programmer) : Key → Prop
  | .digit c => keypad.radix.hasDigit c = false
  | .operator c => Radix.isOperator c = false
  | _ => False

/-- A key leaves the value of the input: it writes it in a base or is refused. -/
def LeavesValue (keypad : Programmer) (key : Key) : Prop :=
  (∃ base, key = .base base) ∨ keypad.Refuses key

/-- A run puts a computed value into the input, and all later keys have a property. -/
inductive SinceValue (r : Radix) (p : Programmer → Key → Prop) : List Key → Prop
  | value (keys : List Key) {key : Key} (hkey : key.Computes) : SinceValue r p (keys ++ [key])
  | later {keys : List Key} {key : Key} (h : SinceValue r p keys) (hkey : p (run r keys) key) :
    SinceValue r p (keys ++ [key])

/-- The input is a computed value that has not been edited since. -/
def HoldsValue (r : Radix) (keys : List Key) : Prop := SinceValue r LeavesValue keys

/-- The input is a computed value or what erasing has left of one. -/
def HoldsRest (r : Radix) (keys : List Key) : Prop :=
  SinceValue r (fun keypad key => keypad.LeavesValue key ∨ key = .erase) keys

theorem not_sinceValue_nil {p : Programmer → Key → Prop} : ¬SinceValue r p [] := by
  intro h
  generalize hkeys : ([] : List Key) = keys at h
  cases h with
  | value | later => exact List.append_ne_nil_of_right_ne_nil _ (List.cons_ne_nil _ _) hkeys.symm

theorem sinceValue_append_singleton {p : Programmer → Key → Prop} :
    SinceValue r p (keys ++ [key]) ↔ key.Computes ∨ (SinceValue r p keys ∧ p (run r keys) key) := by
  constructor
  · intro h
    generalize hkeys : keys ++ [key] = all at h
    cases h with
    | value earlier hkey =>
      obtain ⟨-, hlast⟩ := List.append_inj' hkeys rfl
      exact .inl (List.singleton_inj.mp hlast ▸ hkey)
    | later h hkey =>
      obtain ⟨rfl, hlast⟩ := List.append_inj' hkeys rfl
      exact .inr ⟨h, List.singleton_inj.mp hlast ▸ hkey⟩
  · rintro (hkey | ⟨h, hkey⟩)
    · exact .value keys hkey
    · exact .later h hkey

/-! ## One key -/

theorem press_of_refuses (h : keypad.Refuses key) : keypad.press key = keypad := by
  cases key with
  | digit c =>
    have hdigit : ¬keypad.radix.hasDigit c = true := by simpa [Refuses] using h
    rw [press, pressDigit?, if_neg hdigit, Option.getD_none]
  | operator c =>
    have hoperator : ¬Radix.isOperator c = true := by simpa [Refuses] using h
    rw [press, pressOperator?, if_neg hoperator, Option.getD_none]
  | line _ | base _ | erase | clear | reopen _ | calculate => exact h.elim

theorem activate_replaces (keypad : Programmer) (r : Radix) :
    (keypad.activate r).replaces = keypad.replaces := by
  unfold activate
  split <;> rfl

/-- What a key does to the mark that the next digit replaces the input. -/
theorem press_replaces_iff :
    (keypad.press key).replaces = true ↔
      key.Computes ∨ (keypad.replaces = true ∧ (keypad.LeavesValue key ∨ key = .erase)) := by
  by_cases hrefused : keypad.Refuses key
  · have hother : ¬key.Computes := by
      cases key with
      | reopen _ | calculate => exact hrefused.elim
      | _ => exact id
    rw [press_of_refuses hrefused]
    simp [hother, LeavesValue, hrefused]
  cases key with
  | digit c =>
    have hc : keypad.radix.hasDigit c = true := by simpa [Refuses] using hrefused
    simp [press_digit hc, Key.Computes, LeavesValue, hrefused]
  | operator c =>
    have hc : Radix.isOperator c = true := by simpa [Refuses] using hrefused
    simp [press_operator hc, Key.Computes, LeavesValue, hrefused]
  | line _ | clear => simp [press, typeLine, clear, Key.Computes, LeavesValue, Refuses]
  | base base => simp [press, activate_replaces, Key.Computes, LeavesValue]
  | erase => simp [press, eraseLast, Key.Computes]
  | reopen _ | calculate => exact iff_of_true rfl (.inl trivial)

theorem programmerDisplay_ne_nil (r : Radix) (s : Text) : programmerDisplay r s ≠ [] := by
  rcases isInput_programmerDisplay r s with herror | hinput
  · rw [herror]
    decide
  · exact hinput.1

/-- An input that the next digit replaces is not empty. -/
theorem press_input_ne_nil (h : keypad.replaces = true → keypad.input ≠ [])
    (hreplaces : (keypad.press key).replaces = true) : (keypad.press key).input ≠ [] := by
  rcases press_replaces_iff.mp hreplaces with hkey | ⟨hbefore, (⟨base, rfl⟩ | hrefused) | rfl⟩
  · cases key with
    | reopen stored => exact programmerDisplay_ne_nil _ _
    | calculate => exact programmerDisplay_ne_nil _ _
    | _ => exact hkey.elim
  · rw [press, activate]
    split
    · exact h hbefore
    · exact (isInput_render base _).1
  · rw [press_of_refuses hrefused]
    exact h hbefore
  · exact keypad.eraseLast_input_ne_nil

/-! ## All keys -/

/-- By induction on the keys, the last of which comes after all others. -/
theorem run_replaces_iff (r : Radix) (keys : List Key) :
    (run r keys).replaces = true ↔ HoldsRest r keys := by
  induction keys using List.reverseRecOn with
  | nil => exact iff_of_false Bool.false_ne_true not_sinceValue_nil
  | append_singleton keys key ih =>
    rw [run_append_singleton, press_replaces_iff, HoldsRest, sinceValue_append_singleton, ih,
      HoldsRest]

theorem run_input_ne_nil (r : Radix) (keys : List Key) (h : (run r keys).replaces = true) :
    (run r keys).input ≠ [] := by
  induction keys using List.reverseRecOn with
  | nil => exact absurd h Bool.false_ne_true
  | append_singleton keys key ih =>
    rw [run_append_singleton] at h ⊢
    exact press_input_ne_nil ih h

/-- A computed value that has not been edited is the last result, in the bases that were chosen
since. -/
theorem HoldsValue.exists_bases (h : HoldsValue r keys) :
    ∃ earlier key, ∃ bases : List Radix, earlier ++ [key] <+: keys ∧ key.Computes ∧
      (run r (earlier ++ [key])).input = (run r (earlier ++ [key])).result ∧
      run r keys = bases.foldl activate (run r (earlier ++ [key])) := by
  induction h with
  | @value keys key hkey =>
    refine ⟨keys, key, [], List.prefix_rfl, hkey, ?_, rfl⟩
    rw [run_append_singleton]
    cases key with
    | reopen _ | calculate => rfl
    | _ => exact hkey.elim
  | @later keys key _ hkey ih =>
    obtain ⟨earlier, first, bases, hprefix, hfirst, hresult, hrun⟩ := ih
    have hlater := hprefix.trans (List.prefix_append keys [key])
    rw [run_append_singleton]
    rcases hkey with ⟨base, rfl⟩ | hrefused
    · refine ⟨earlier, first, bases ++ [base], hlater, hfirst, hresult, ?_⟩
      rw [List.foldl_append, ← hrun]
      rfl
    · refine ⟨earlier, first, bases, hlater, hfirst, hresult, ?_⟩
      rw [press_of_refuses hrefused, hrun]

/-- A digit replaces a lone zero and what is left of a computed value. -/
theorem run_digit_replaces (hc : (run r keys).radix.hasDigit c = true)
    (h : (run r keys).input = initial ∨ HoldsRest r keys) :
    (run r (keys ++ [.digit c])).input = [c.toUpper] := by
  rw [← run_replaces_iff] at h
  rw [run_append_singleton, press_digit hc]
  rcases h with h | h <;> simp [h]

/-- A digit is appended to every other input. -/
theorem run_digit_appends (hc : (run r keys).radix.hasDigit c = true)
    (hinput : (run r keys).input ≠ initial) (h : ¬HoldsRest r keys) :
    (run r (keys ++ [.digit c])).input = (run r keys).input ++ [c.toUpper] := by
  rw [← run_replaces_iff] at h
  rw [run_append_singleton, press_digit hc]
  simp [hinput, h]

/-- **Which inputs a digit replaces.** A digit that is refused changes nothing. Any other is typed
as a capital: in place of the input if that is a lone zero, or a computed value which nothing but
erasing has edited since; and after the input otherwise. So throughout a run no digit replaces an
input other than a lone zero or the last result in the bases chosen since, exactly if none is
pressed after erasing that leaves of a computed value anything but a lone zero. -/
theorem digit_appends_throughout_iff (r : Radix) (keys : List Key) :
    ((∀ earlier c, earlier ++ [.digit c] <+: keys → (run r earlier).radix.hasDigit c = true →
        (run r earlier).input ≠ initial → ¬HoldsValue r earlier →
        (run r (earlier ++ [.digit c])).input = (run r earlier).input ++ [c.toUpper]) ↔
      ∀ earlier c, earlier ++ [.digit c] <+: keys → (run r earlier).radix.hasDigit c = true →
        (run r earlier).input ≠ initial → HoldsRest r earlier → HoldsValue r earlier) ∧
    (∀ c, (run r keys).radix.hasDigit c = true →
      ((run r keys).input = initial ∨ HoldsRest r keys →
        (run r (keys ++ [.digit c])).input = [c.toUpper]) ∧
      ((run r keys).input ≠ initial → ¬HoldsRest r keys →
        (run r (keys ++ [.digit c])).input = (run r keys).input ++ [c.toUpper])) ∧
    (∀ c, (run r keys).radix.hasDigit c = false → run r (keys ++ [.digit c]) = run r keys) ∧
    (HoldsValue r keys → ∃ earlier key, ∃ bases : List Radix, earlier ++ [key] <+: keys ∧
      key.Computes ∧ (run r (earlier ++ [key])).input = (run r (earlier ++ [key])).result ∧
      run r keys = bases.foldl activate (run r (earlier ++ [key]))) := by
  refine ⟨⟨?_, ?_⟩, fun c hc => ⟨run_digit_replaces hc, run_digit_appends hc⟩, fun c hc => ?_,
    HoldsValue.exists_bases⟩
  · intro happends earlier c hearlier hc hinput hrest
    by_contra hvalue
    have happended := happends earlier c hearlier hc hinput hvalue
    rw [run_digit_replaces hc (.inr hrest)] at happended
    have hnil : (run r earlier).input = [] := by simpa using happended
    exact run_input_ne_nil r earlier ((run_replaces_iff r earlier).mpr hrest) hnil
  · intro hrests earlier c hearlier hc hinput hvalue
    have hrest : ¬HoldsRest r earlier := fun hrest =>
      hvalue (hrests earlier c hearlier hc hinput hrest)
    exact run_digit_appends hc hinput hrest
  · rw [run_append_singleton]
    exact press_of_refuses hc

/-- A digit replaces a result that has been written in another base, and goes on from one after
which an operator was pressed. -/
theorem digit_appends_throughout_hex :
    let shown := [Key.digit '1', .digit '2', .calculate, .base .hex]
    let continued := [Key.digit '1', .digit '2', .calculate, .operator '+']
    (run .dec shown).input = ['C'] ∧ HoldsRest .dec shown ∧
    (run .dec (shown ++ [.digit 'f'])).input = ['F'] ∧
    (run .dec continued).input = "12+".toList ∧ ¬HoldsRest .dec continued ∧
    (run .dec (continued ++ [.digit '3'])).input = "12+3".toList := by
  intro shown continued
  have hshown : HoldsRest .dec shown := (run_replaces_iff _ _).mp (by decide +kernel)
  have hcontinued : ¬HoldsRest .dec continued := by
    rw [← run_replaces_iff]
    decide +kernel
  have hinput : (run .dec continued).input = "12+".toList := by decide +kernel
  obtain ⟨-, hreplaces, -⟩ := digit_appends_throughout_iff .dec shown
  obtain ⟨-, happends, -⟩ := digit_appends_throughout_iff .dec continued
  have happended := (happends '3' (by decide +kernel)).2 (by rw [hinput]; decide) hcontinued
  rw [hinput] at happended
  exact ⟨by decide +kernel, hshown, (hreplaces 'f' (by decide +kernel)).1 (.inr hshown), hinput,
    hcontinued, happended⟩

/-- After `12` is calculated and its last digit erased, `1` is no computed value any more, and the
next digit replaces it. -/
theorem digit_replaces_erased :
    let keys := [Key.digit '1', .digit '2', .calculate, .erase]
    (run .dec keys).input = ['1'] ∧ ¬HoldsValue .dec keys ∧
      (run .dec keys).radix.hasDigit '5' = true ∧
      (run .dec (keys ++ [.digit '5'])).input = ['5'] := by
  intro keys
  refine ⟨by decide +kernel, ?_, by decide +kernel, by decide +kernel⟩
  intro h
  have herased : HoldsValue .dec ([.digit '1', .digit '2', .calculate] ++ [.erase]) := h
  rcases sinceValue_append_singleton.mp herased with hkey | ⟨-, ⟨_, hbase⟩ | hrefused⟩
  · exact hkey
  · cases hbase
  · exact hrefused

end Calculator.Keypad.Programmer
