import Calculator.Proofs.Display
import Calculator.Proofs.Keypad.ShownResult
import Calculator.Proofs.Scientific.Occurrence

/-!
# What the scientific keypad writes

The keys type few characters, and a number that is taken over from the display is made of some of
them. The display `Error` is never taken over. The two other displays of no number are results like
any other: they get into the expression by an operator or a function that is pressed while one of
them is shown, and in no other way.
-/

namespace Calculator.Keypad

/-- The operators and brackets on the keypad. -/
def signs : Text := ['+', '-', '*', '/', '^', '(', ')']

/-- What the keys type besides digits: the point, the symbols of the constants, the operators and
brackets, and the letters in the names of the functions. -/
def symbols : Text := ['.', 'π', 'e'] ++ signs ++ Function.all.flatMap Function.name

/-- A character that the keys type. -/
def IsSymbol (c : Char) : Prop := c.isDigit = true ∨ c ∈ symbols

instance (c : Char) : Decidable (IsSymbol c) := inferInstanceAs (Decidable (_ ∨ _))

/-- A text that is not empty and has no characters but those that the keys type. -/
def IsTyped (s : Text) : Prop := s ≠ [] ∧ ∀ c ∈ s, IsSymbol c

/-- A key of the keypad itself, with what it types. Whole lines and kept expressions come from
elsewhere. -/
def Key.IsOnKeypad : Key → Prop
  | .digits text => text ≠ [] ∧ ∀ c ∈ text, c.isDigit = true
  | .operator text => ∃ c ∈ signs, text = [c]
  | .constant symbol => symbol = ['π'] ∨ symbol = ['e']
  | .function _ | .point | .erase | .clear | .calculate => True
  | .line _ | .reopen _ => False

/-- The keys that go on from the result. -/
def Key.TakesResult : Key → Prop
  | .operator _ | .function _ => True
  | _ => False

/-- A display of no number that counts as a result. -/
def IsErrorResult (display : Text) : Prop :=
  display = Display.undefined ∨ display = Display.infinite

/-! ## The characters of calls and numbers -/

theorem isTyped_initial : IsTyped initial :=
  ⟨by decide, List.forall_mem_singleton.mpr (by decide)⟩

theorem isSymbol_of_mem_signs {c : Char} (hc : c ∈ signs) : IsSymbol c :=
  .inr (List.mem_append_left _ (List.mem_append_right _ hc))

theorem isSymbol_of_mem_name {f : Function} {c : Char} (hc : c ∈ f.name) : IsSymbol c :=
  .inr (List.mem_append_right _ (List.mem_flatMap.mpr ⟨f, Function.mem_all f, hc⟩))

theorem isTyped_singleton {c : Char} (hc : IsSymbol c) : IsTyped [c] :=
  ⟨List.cons_ne_nil c [], List.forall_mem_singleton.mpr hc⟩

/-- The opening of a call is typed. -/
theorem isTyped_opening (f : Function) : IsTyped (f.name ++ ['(']) := by
  refine ⟨List.append_ne_nil_of_right_ne_nil _ (List.cons_ne_nil _ _), ?_⟩
  rw [List.forall_mem_append, List.forall_mem_singleton]
  exact ⟨fun c hc => isSymbol_of_mem_name hc, isSymbol_of_mem_signs (by decide)⟩

/-- A number on display is made of what the keys type. -/
theorem isSymbol_of_mem_number {display : Text} (h : Display.IsNumber display) :
    ∀ c ∈ display, IsSymbol c := by
  obtain ⟨negative, hwhole, hfraction, -⟩ := h
  have hcapitals : (Radix.capitals.take Radix.dec.base).all Char.isDigit = true := by decide
  have hsign : ∀ c ∈ if negative then ['-'] else [], IsSymbol c := by
    cases negative
    · exact nofun
    · exact List.forall_mem_singleton.mpr (by decide)
  simp only [List.forall_mem_append]
  refine ⟨⟨hsign, fun c hc => .inl (List.all_eq_true.mp hcapitals c (hwhole.capital c hc))⟩, ?_⟩
  cases hfraction with
  | none => exact nofun
  | places hdigits hlast _ =>
    rw [List.forall_mem_append, List.forall_mem_cons, List.forall_mem_singleton]
    exact ⟨⟨.inr (by decide), fun c hc => .inl (hdigits c hc)⟩, .inl hlast⟩

/-- A result that reads `0` or is a display is a number, unless it is one of the three errors. -/
theorem isSymbol_of_mem_result {settings : Settings} {result : Text}
    (h : result = initial ∨ ∃ s, result = settings.scientificDisplay s)
    (hplain : result ≠ Display.error) (herror : ¬IsErrorResult result) :
    ∀ c ∈ result, IsSymbol c := by
  rcases h with rfl | ⟨s, rfl⟩
  · exact isTyped_initial.2
  · rcases (settings.scientificDisplay_tells s).total with hnumber | hundefined | hinfinite | hsame
    · exact isSymbol_of_mem_number hnumber
    · exact absurd (.inl hundefined) herror
    · exact absurd (.inr hinfinite) herror
    · exact absurd hsame hplain

namespace Scientific

variable {settings : Settings} {keypad : Scientific} {key : Key}

/-! ## One key -/

/-- What a key does to the expression: it types something after it or in place of it, deletes its
last character, or goes on from the result. -/
inductive Edits (keypad : Scientific) (key : Key) : Text → Prop
  | appends {s : Text} (hs : ∀ c ∈ s, IsSymbol c) : Edits keypad key (keypad.expression ++ s)
  | restarts {s : Text} (hs : IsTyped s) : Edits keypad key s
  | deletes (hlength : 1 < keypad.expression.length) :
    Edits keypad key keypad.expression.dropLast
  | goesOn {before after : Text} (hkey : key.TakesResult) (hshows : keypad.showsValue = true)
    (hbefore : ∀ c ∈ before, IsSymbol c) (hafter : IsTyped after) :
    Edits keypad key (before ++ keypad.result ++ after)

theorem edits_pressDigits {text : Text} (hkey : Key.IsOnKeypad (.digits text)) :
    Edits keypad key (keypad.pressDigits text).expression := by
  obtain ⟨hne, hdigits⟩ := hkey
  have hsymbols : ∀ c ∈ text, IsSymbol c := fun c hc => .inl (hdigits c hc)
  unfold pressDigits
  dsimp only
  split
  · exact .restarts ⟨hne, hsymbols⟩
  · exact .appends hsymbols

theorem edits_pressOperator {text : Text} (hkey : Key.IsOnKeypad (.operator text)) :
    Edits keypad (.operator text) (keypad.pressOperator text).expression := by
  obtain ⟨c, hc, rfl⟩ := hkey
  have htyped := isTyped_singleton (isSymbol_of_mem_signs hc)
  unfold pressOperator
  split
  · rename_i hshows
    have hgoesOn : Edits keypad (.operator [c]) ([] ++ keypad.result ++ [c]) :=
      .goesOn trivial hshows nofun htyped
    exact hgoesOn
  · exact .appends htyped.2

/-- The multiplication sign that a key may type before its own text. -/
private theorem isSymbol_of_mem_times (p : Bool) (c : Char)
    (hc : c ∈ if p then ['*'] else ([] : Text)) : IsSymbol c := by
  cases p
  · exact absurd hc List.not_mem_nil
  · rw [List.mem_singleton.mp hc]
    decide

theorem edits_pressFunction (f : Function) :
    Edits keypad (.function f) (keypad.pressFunction f).expression := by
  have hopening := isTyped_opening f
  unfold pressFunction
  dsimp only
  split
  · rename_i hshows
    exact .goesOn trivial hshows hopening.2 (isTyped_singleton (isSymbol_of_mem_signs (by decide)))
  · split
    · exact .restarts hopening
    · rw [List.append_assoc]
      exact .appends (List.forall_mem_append.mpr ⟨isSymbol_of_mem_times _, hopening.2⟩)

theorem edits_pressConstant {symbol : Text} (hkey : Key.IsOnKeypad (.constant symbol)) :
    Edits keypad key (keypad.pressConstant symbol).expression := by
  have hsymbol : IsTyped symbol := by
    rcases hkey with rfl | rfl
    · exact isTyped_singleton (by decide)
    · exact isTyped_singleton (by decide)
  unfold pressConstant
  split
  · exact .restarts hsymbol
  · dsimp only
    rw [List.append_assoc]
    exact .appends (List.forall_mem_append.mpr ⟨isSymbol_of_mem_times _, hsymbol.2⟩)

theorem edits_press (settings : Settings) (keypad : Scientific) (hkey : key.IsOnKeypad) :
    Edits keypad key (press settings keypad key).expression := by
  have hsame : Edits keypad key keypad.expression := by
    have hnothing : Edits keypad key (keypad.expression ++ []) := .appends nofun
    rwa [List.append_nil] at hnothing
  cases key with
  | digits text => exact edits_pressDigits hkey
  | operator text => exact edits_pressOperator hkey
  | function f => exact edits_pressFunction f
  | constant symbol => exact edits_pressConstant hkey
  | point =>
    simp only [press, pressPoint]
    split
    · exact hsame
    · exact .appends (List.forall_mem_singleton.mpr (by decide))
  | line text | reopen text => exact hkey.elim
  | erase =>
    simp only [press, eraseLast]
    split
    · rename_i hlength
      exact .deletes hlength
    · exact .restarts isTyped_initial
  | clear => exact .restarts isTyped_initial
  | calculate => exact hsame

/-- No key leaves the expression empty. -/
theorem press_ne_nil (hkey : key.IsOnKeypad) (h : keypad.expression ≠ []) :
    (press settings keypad key).expression ≠ [] := by
  have hedits := edits_press settings keypad hkey
  generalize (press settings keypad key).expression = s at hedits ⊢
  cases hedits with
  | appends _ => exact List.append_ne_nil_of_left_ne_nil h _
  | restarts hs => exact hs.1
  | deletes hlength =>
    rw [← List.length_pos_iff, List.length_dropLast]
    omega
  | goesOn _ _ _ hafter => exact List.append_ne_nil_of_right_ne_nil _ hafter.1

/-- A key adds nothing but what keys type, as long as it does not go on from a result that has other
characters. -/
theorem mem_press (hkey : key.IsOnKeypad)
    (hresult : key.TakesResult → keypad.showsValue = true → ∀ c ∈ keypad.result, IsSymbol c) :
    ∀ c ∈ (press settings keypad key).expression, c ∈ keypad.expression ∨ IsSymbol c := by
  have hedits := edits_press settings keypad hkey
  generalize (press settings keypad key).expression = s at hedits ⊢
  cases hedits with
  | appends hs =>
    rw [List.forall_mem_append]
    exact ⟨fun _ => .inl, fun c hc => .inr (hs c hc)⟩
  | restarts hs => exact fun c hc => .inr (hs.2 c hc)
  | deletes _ => exact fun _ hc => .inl (List.dropLast_subset _ hc)
  | goesOn htakes hshows hbefore hafter =>
    rw [List.forall_mem_append, List.forall_mem_append]
    exact ⟨⟨fun c hc => .inr (hbefore c hc), fun c hc => .inr (hresult htakes hshows c hc)⟩,
      fun c hc => .inr (hafter.2 c hc)⟩

/-- Going on from an error writes a letter that no key types. -/
theorem not_isTyped_press (settings : Settings) (hkey : key.TakesResult)
    (herror : IsErrorResult keypad.result) : ¬IsTyped (press settings keypad key).expression := by
  have hletter : 'E' ∈ keypad.result ∧ keypad.showsValue = true := by
    rw [showsValue]
    rcases herror with h | h <;> rw [h] <;> decide
  have hmem : 'E' ∈ (press settings keypad key).expression := by
    cases key with
    | operator text => simp [press, pressOperator, hletter]
    | function f => simp [press, pressFunction, hletter]
    | _ => exact hkey.elim
  exact fun htyped => absurd (htyped.2 'E' hmem) (by decide)

/-- A key leaves the result, resets it or shows the display of an expression. -/
theorem press_result_cases (settings : Settings) (keypad : Scientific) (key : Key) :
    (press settings keypad key).result = keypad.result ∨
      (press settings keypad key).result = initial ∨
      ∃ s, (press settings keypad key).result = settings.scientificDisplay s := by
  cases key with
  | digits _ | line _ | clear => exact .inr (.inl rfl)
  | constant _ =>
    simp only [press, pressConstant]
    split <;> exact .inr (.inl rfl)
  | operator _ =>
    simp only [press, pressOperator]
    split
    · exact .inr (.inl rfl)
    · exact .inl rfl
  | function _ =>
    simp only [press, pressFunction]
    split
    · exact .inr (.inl rfl)
    · split <;> exact .inl rfl
  | point => exact .inl (press_result_of_keepsResult (.inr rfl))
  | erase => exact .inl (press_result_of_keepsResult (.inl rfl))
  | reopen s => exact .inr (.inr ⟨s, rfl⟩)
  | calculate => exact .inr (.inr ⟨keypad.expression, rfl⟩)

/-! ## All keys -/

/-- The result reads `0` or is the display of an expression. -/
theorem run_result_cases (settings : Settings) (keys : List Key) :
    (run settings keys).result = initial ∨
      ∃ s, (run settings keys).result = settings.scientificDisplay s := by
  induction keys using List.reverseRecOn with
  | nil => exact .inl rfl
  | append_singleton keys key ih =>
    rw [run_append_singleton]
    rcases press_result_cases settings (run settings keys) key with hsame | hnew
    · rw [hsame]
      exact ih
    · exact hnew

theorem run_ne_nil (settings : Settings) {keys : List Key} (hkeys : ∀ key ∈ keys, key.IsOnKeypad) :
    (run settings keys).expression ≠ [] := by
  induction keys using List.reverseRecOn with
  | nil => exact isTyped_initial.1
  | append_singleton keys key ih =>
    rw [List.forall_mem_append, List.forall_mem_singleton] at hkeys
    rw [run_append_singleton]
    exact press_ne_nil hkeys.2 (ih hkeys.1)

/-- A key that is not pressed to go on from an error adds what keys type and nothing else. -/
theorem mem_press_run (settings : Settings) (keys : List Key) (hkey : key.IsOnKeypad)
    (herror : key.TakesResult → ¬IsErrorResult (run settings keys).result) :
    ∀ c ∈ (run settings (keys ++ [key])).expression,
      c ∈ (run settings keys).expression ∨ IsSymbol c := by
  rw [run_append_singleton]
  refine mem_press hkey fun htakes hshows => ?_
  refine isSymbol_of_mem_result (run_result_cases settings keys) (fun hplain => ?_) (herror htakes)
  rw [showsValue, hplain] at hshows
  exact absurd hshows (by decide)

/-- **What the expression is made of.** Throughout a run it is made of what the keys type exactly if
no operator and no function is pressed while an undefined or an infinite result is shown. In every
run it never becomes empty, and nothing of the display `Error` gets into it. -/
theorem isTyped_throughout_iff (settings : Settings) {keys : List Key}
    (hkeys : ∀ key ∈ keys, key.IsOnKeypad) :
    ((∀ earlier, earlier <+: keys → IsTyped (run settings earlier).expression) ↔
      ∀ earlier key, earlier ++ [key] <+: keys → key.TakesResult →
        ¬IsErrorResult (run settings earlier).result) ∧
    (∀ earlier, earlier <+: keys → (run settings earlier).expression ≠ []) ∧
    ∀ earlier key, earlier ++ [key] <+: keys → (run settings earlier).result = Display.error →
      ∀ c ∈ (run settings (earlier ++ [key])).expression,
        c ∈ (run settings earlier).expression ∨ IsSymbol c := by
  have honKeypad : ∀ earlier key, earlier ++ [key] <+: keys → key.IsOnKeypad :=
    fun _ key hearlier => hkeys key (hearlier.subset (by simp))
  have hnonempty : ∀ earlier, earlier <+: keys → (run settings earlier).expression ≠ [] :=
    fun _ hearlier => run_ne_nil settings fun key hkey => hkeys key (hearlier.subset hkey)
  refine ⟨⟨?_, ?_⟩, hnonempty, ?_⟩
  · intro htyped earlier key hearlier htakes herror
    have hnot := not_isTyped_press settings htakes herror
    rw [← run_append_singleton] at hnot
    exact hnot (htyped _ hearlier)
  · intro hno earlier hearlier
    induction earlier using List.reverseRecOn with
    | nil => exact isTyped_initial
    | append_singleton earlier key ih =>
      have hbefore := ih ((List.prefix_append _ _).trans hearlier)
      have hmem := mem_press_run settings earlier (honKeypad _ _ hearlier) (hno _ _ hearlier)
      exact ⟨hnonempty _ hearlier, fun c hc => (hmem c hc).elim (hbefore.2 c) id⟩
  · intro earlier key hearlier hplain
    refine mem_press_run settings earlier (honKeypad _ _ hearlier) fun _ herror => ?_
    rw [hplain] at herror
    rcases herror with h | h <;> exact absurd h (by decide)

/-- A sign without an operand shows `Error`, and the next sign is typed after it. -/
theorem isTyped_throughout_sign :
    (∀ earlier, earlier <+: [.digits ['2'], .operator ['+'], .calculate, .operator ['-']] →
      IsTyped (run {} earlier).expression) ∧
    (run {} [.digits ['2'], .operator ['+'], .calculate]).result = Display.error ∧
    (run {} [.digits ['2'], .operator ['+'], .calculate, .operator ['-']]).expression =
      "2+-".toList := by
  have hkeys : ∀ key ∈ [Key.digits ['2'], .operator ['+'], .calculate, .operator ['-']],
      key.IsOnKeypad := by
    simp [Key.IsOnKeypad, signs]
  refine ⟨(isTyped_throughout_iff {} hkeys).1.mpr ?_, by decide, by decide⟩
  rintro earlier key ⟨later, hsplit⟩ _
  have hshown : ∀ n < 4, ¬IsErrorResult
      (run {} ([.digits ['2'], .operator ['+'], .calculate, .operator ['-']].take n)).result := by
    unfold IsErrorResult
    decide
  have hlength := congrArg List.length hsplit
  simp only [List.length_append, List.length_cons, List.length_nil] at hlength
  have hearlier := hshown earlier.length (by omega)
  rwa [← hsplit, List.append_assoc, List.take_left] at hearlier

/-- After a division by zero, an operator goes on from the display of infinity. -/
theorem operator_takes_infinite :
    let keys := [Key.digits ['1'], .operator ['/'], .digits ['0'], .calculate, .operator ['+']]
    (∀ key ∈ keys, key.IsOnKeypad) ∧
      (run {} keys).expression = "Error: Infinity+".toList ∧ ¬IsTyped (run {} keys).expression := by
  intro keys
  have hexpression : (run {} keys).expression = "Error: Infinity+".toList := by decide +kernel
  rw [hexpression]
  refine ⟨by simp [keys, Key.IsOnKeypad, signs], rfl, ?_⟩
  exact fun htyped => absurd (htyped.2 'E' (by decide)) (by decide)

end Scientific

end Calculator.Keypad
