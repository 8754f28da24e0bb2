import Calculator.Proofs.Expression.FirstOperand
import Calculator.Proofs.Keypad.Reopening
import Calculator.Proofs.Keypad.Typing
import Calculator.Proofs.Radix.Shared

/-!
# The result of a typed expression

The zeros at the start of a number make no difference to its value. A sign at the start of an
expression is typed after a zero and becomes an operator, which comes to the same unless the sign
belongs to the base of a power. Only an opening bracket cannot stand after the zero. So typing an
expression key by key shows what entering it as a line does, but for these two exceptions.
-/

namespace Calculator

/-! ## Displays of the same value -/

/-- A double is no fault of the text. -/
theorem Outcome.ofFloat_ne_malformed (x : Float) : ofFloat x ≠ .malformed := by
  rw [ofFloat]
  split <;> simp

namespace Display

theorem truncate_zero (negative : Bool) : (Double.finite negative 0).truncate = 0 := by
  cases negative <;> rw [Double.truncate, Nat.zero_div] <;> rfl

/-- A zero of either sign is displayed alike. -/
theorem ofRounded_zero (places : Nat) (negative : Bool) :
    Text.ofRounded places (.finite negative 0) = ['0'] := by
  have hwhole : (Double.finite negative 0).isWhole = true := by
    simp [Double.isWhole, Double.isMultipleOf]
  rw [Text.ofRounded, if_pos hwhole, truncate_zero]
  rfl

theorem ofOutcome_of_sameValue (places : Nat) {x y : Float} (h : Double.SameValue x y) :
    ofOutcome places (.ofFloat x) = ofOutcome places (.ofFloat y) := by
  have hzero {x : Float} (hx : Double.IsZero x) : ofOutcome places (.ofFloat x) = ['0'] := by
    obtain ⟨negative, hunits⟩ := hx.eq_finite
    rw [Outcome.ofFloat, hunits]
    dsimp only [ofOutcome]
    rw [hunits, ofRounded_zero]
  rcases h with rfl | ⟨hx, hy⟩
  · rfl
  · rw [hzero hx, hzero hy]

theorem ofOutcomeIn_of_sameValue (r : Radix) {x y : Float} (h : Double.SameValue x y) :
    ofOutcomeIn r (.ofFloat x) = ofOutcomeIn r (.ofFloat y) := by
  have hzero {x : Float} (hx : Double.IsZero x) : ofOutcomeIn r (.ofFloat x) = r.render 0 := by
    obtain ⟨negative, hunits⟩ := hx.eq_finite
    rw [Outcome.ofFloat, hunits]
    dsimp only [ofOutcomeIn]
    rw [hunits, truncate_zero]
  rcases h with rfl | ⟨hx, hy⟩
  · rfl
  · rw [hzero hx, hzero hy]

end Display

namespace Keypad

open Double (SameValue)
open Expression (EndsNumber HasSinglePoints isNumeric minusBeforePower)
open Radix (Rewritten SameRun)

variable {s t : Text} {c : Char}

/-! ## Numbers -/

theorem ofNumeral_typed (s : Text) :
    Decimal.ofNumeral (typed Char.isDigit s) = Decimal.ofNumeral s := by
  refine apply_typed Decimal.ofNumeral (fun s => ?_) s
  simp [Decimal.ofNumeral, Nat.ofDigitChars_cons]

/-- Digits with at most one point are typed as a numeral. -/
theorem isNumeral_typed (hnumeric : ∀ c ∈ s, isNumeric c = true) (hpoint : s.count '.' ≤ 1) :
    Decimal.IsNumeral (typed Char.isDigit s) := by
  have hsuffix := typed_suffix Char.isDigit s
  obtain ⟨d, t, htyped, hdigit⟩ := exists_typed_eq_cons (show Char.isDigit '0' = true by decide) s
  refine ⟨fun c hc => ?_, ⟨d, by simp [htyped], hdigit⟩, ?_⟩
  · rcases List.mem_cons.mp (hsuffix.subset hc) with rfl | hmem
    · decide
    · exact hnumeric c hmem
  · have hcount := hsuffix.sublist.count_le '.'
    rw [List.count_cons_of_ne (by decide)] at hcount
    exact hcount.trans hpoint

theorem positional_typed (r : Radix) (s : Text) :
    r.positional (typed r.hasDigit s) = r.positional s := by
  refine apply_typed r.positional (fun s => ?_) s
  have hzero : Radix.digitValue '0' = 0 := by decide
  simp [Radix.positional, hzero, Nat.ofDigits_append]

theorem isDigits_typed {r : Radix} (hs : ∀ c ∈ s, r.hasDigit c = true) :
    r.IsDigits (typed r.hasDigit s) := by
  obtain ⟨d, t, htyped, -⟩ := exists_typed_eq_cons (hasDigit_zero r) s
  refine ⟨by simp [htyped], fun c hc => ?_⟩
  rcases List.mem_cons.mp ((typed_suffix r.hasDigit s).subset hc) with rfl | hmem
  · exact hasDigit_zero r
  · exact hs c hmem

/-- What is typed for two texts that stand for each other stands for each other. -/
theorem typed_sameRun {r : Radix} (h : SameRun r s t) :
    SameRun r (typed Char.isDigit s) (typed r.hasDigit t) := by
  have hdecimal : typed Char.isDigit s = typed Radix.dec.hasDigit s := by
    rw [funext Radix.hasDigit_dec]
  have hvalue : r.positional t = Radix.dec.positional s ∧
      (Radix.dec.positional s : Int) ≤ Int64.maxValue.toInt := by
    cases h with
    | empty => cases r <;> decide
    | digits _ _ hvalue hbound => exact ⟨hvalue, hbound⟩
  have hdigits : (∀ c ∈ s, Radix.dec.hasDigit c = true) ∧ ∀ c ∈ t, r.hasDigit c = true := by
    cases h with
    | empty => exact ⟨nofun, nofun⟩
    | digits hs ht _ _ => exact ⟨hs.2, ht.2⟩
  rw [hdecimal]
  refine .digits (isDigits_typed hdigits.1) (isDigits_typed hdigits.2) ?_ ?_
  · rw [positional_typed, positional_typed, hvalue.1]
  · rw [positional_typed]
    exact hvalue.2

theorem typed_rewritten {r : Radix} (h : Rewritten r s t) :
    Rewritten r (typed Char.isDigit s) (typed r.hasDigit t) := by
  cases h with
  | run hrun => exact .run (typed_sameRun hrun)
  | @operator decimal digits s t c hrun hc hrest =>
    have hdigit : r.hasDigit c = false := Radix.hasDigit_of_mem_operators hc
    have hdecimal : c.isDigit = false := by
      rw [← Radix.hasDigit_dec]
      exact Radix.hasDigit_of_mem_operators hc
    rw [typed_append (by decide) (by simpa using hdecimal),
      typed_append (hasDigit_zero r) (by simpa using hdigit)]
    exact .operator (typed_sameRun hrun) hc hrest

/-- The number at the start of a text is typed without its zeros, or with one before its point. -/
theorem exists_number_split (hc : isNumeric c = true) (s : Text) :
    ∃ run rest, c :: s = run ++ rest ∧ run ≠ [] ∧ (∀ d ∈ run, isNumeric d = true) ∧
      EndsNumber rest ∧ typed Char.isDigit (c :: s) = typed Char.isDigit run ++ rest := by
  have hsplit : (c :: s).takeWhile isNumeric ++ (c :: s).dropWhile isNumeric = c :: s :=
    List.takeWhile_append_dropWhile
  have hrest : ∀ d ∈ ((c :: s).dropWhile isNumeric).head?, isNumeric d = false := by
    intro d hd
    have hnot := List.head?_dropWhile_not isNumeric (c :: s)
    rw [hd] at hnot
    exact hnot
  have hdigits : ∀ d ∈ ((c :: s).dropWhile isNumeric).head?, d.isDigit = false := by
    intro d hd
    have hnot := hrest d hd
    rw [isNumeric, Bool.or_eq_false_iff] at hnot
    exact hnot.1
  refine ⟨_, _, hsplit.symm, by simp [hc], List.all_eq_true.mp List.all_takeWhile, ?_, ?_⟩
  · intro d t hd
    exact hrest d (by rw [hd]; rfl)
  · rw [← typed_append (by decide) hdigits, hsplit]

/-! ## Values and displays -/

/-- The value of what has been typed for a text that does not start with an opening bracket, nor
with a minus sign before a power. -/
theorem evaluate_typed {g : Grammar} {x : Float} (hs : ∀ c ∈ s, IsPlain c)
    (hbracket : s.head? ≠ some '(') (hpower : minusBeforePower g s = false)
    (h : evaluate g s = .ok x) :
    ∃ y, evaluate g (typed Char.isDigit s) = .ok y ∧ SameValue y x := by
  have hspace : ' ' ∉ s := fun hmem => absurd (hs _ hmem) (by decide)
  obtain ⟨e, -, hderives, hnest, hvalue⟩ := Expression.derives_of_evaluate hspace h
  obtain ⟨c, t, rfl⟩ := List.exists_cons_of_ne_nil hderives.ne_nil
  have hafter {op : Operator} (hop : op.JoinsTerms) (hc : c = op.sign) :
      ∃ y, evaluate g (typed Char.isDigit (c :: t)) = .ok y ∧ SameValue y x := by
    have hdigit : c.isDigit = false := by
      rw [hc]
      rcases hop with rfl | rfl <;> decide
    rw [typed_of_not_digit (by decide) hdigit, hc]
    rw [hc] at hspace hpower h
    exact Expression.evaluate_afterZero hop hspace hpower h
  have hplain := hs c List.mem_cons_self
  rcases hderives.head_cases with rfl | rfl | rfl | rfl | hc | hc | hc
  · exact absurd hplain (by decide)
  · exact absurd hplain (by decide)
  · exact absurd hplain (by decide)
  · exact absurd rfl hbracket
  · exact hafter (.inl rfl) hc
  · exact hafter (.inr rfl) hc
  · obtain ⟨run, rest, hsplit, hne, hrun, hrest, htyped⟩ := exists_number_split hc t
    rw [hsplit] at hderives
    obtain ⟨hnumeral, hexchange⟩ := hderives.exchange_numeral hrun hne hrest
    rw [htyped]
    exact ⟨_, Expression.evaluate_of_derives (hexchange _ (isNumeral_typed hrun hnumeral.point)
      (ofNumeral_typed run)) hnest, hvalue ▸ .refl _⟩

/-- The zero that is typed before an opening bracket leaves no expression. -/
theorem evaluate_typed_bracket {g : Grammar} (hs : s.head? = some '(') :
    ∃ fault, evaluate g (typed Char.isDigit s) = .error fault := by
  obtain ⟨t, rfl⟩ := List.head?_eq_some_iff.mp hs
  rw [typed_of_not_digit (by decide) (by decide)]
  have hzero : Expression.Derives g false .sum ['0'] (.number (.ofNumeral ['0'])) :=
    .ofTerm (.ofFactor (.number 0 (.of_digits (by simp) (by simp))))
  exact Expression.evaluate_before_bracket hzero (by decide) t

/-- What is not displayed as `Error` has been evaluated. -/
theorem exists_evaluate {g : Grammar} {display : Outcome → Text}
    (hmalformed : display .malformed = Display.error)
    (h : display (.ofResult (evaluate g s)) ≠ Display.error) : ∃ x, evaluate g s = .ok x := by
  cases hvalue : evaluate g s with
  | error fault =>
    rw [hvalue] at h
    exact absurd hmalformed h
  | ok x => exact ⟨x, rfl⟩

/-- What is shown for a text that has been typed is what is shown for the text, unless it starts
with an opening bracket. -/
theorem display_typed {g : Grammar} {display : Outcome → Text}
    (hmalformed : display .malformed = Display.error)
    (hsame : ∀ {x y : Float}, SameValue x y → display (.ofFloat x) = display (.ofFloat y))
    (hs : ∀ c ∈ s, IsPlain c) (hpower : minusBeforePower g s = false)
    (h : display (.ofResult (evaluate g s)) ≠ Display.error) :
    display (.ofResult (evaluate g (typed Char.isDigit s))) = display (.ofResult (evaluate g s)) ↔
      s.head? ≠ some '(' := by
  obtain ⟨x, hvalue⟩ := exists_evaluate hmalformed h
  rw [hvalue] at h ⊢
  constructor
  · intro hdisplay hbracket
    obtain ⟨fault, hfault⟩ := evaluate_typed_bracket (g := g) hbracket
    rw [hfault] at hdisplay
    rw [← hdisplay] at h
    exact h hmalformed
  · intro hbracket
    obtain ⟨y, hy, hxy⟩ := evaluate_typed hs hbracket hpower hvalue
    rw [hy]
    exact hsame hxy

theorem isPlain_of_mem_operators (hc : c ∈ Radix.operators) : IsPlain c := by
  have hsigns : Radix.operators ⊆ signs := by decide
  exact .inr (.inr (hsigns hc))

theorem isBlank_of_isPlain (hc : IsPlain c) : Text.isBlank c = false := by
  have hsigns : ('.' :: signs).all (!Text.isBlank ·) = true := by decide
  rcases hc with hdigit | hsign
  · rw [← Radix.hasDigit_dec] at hdigit
    exact Radix.isBlank_of_hasDigit hdigit
  · simpa using List.all_eq_true.mp hsigns c (List.mem_cons.mpr hsign)

theorem programmerDisplay_typed {r : Radix} (h : programmerDisplay r s ≠ Display.error) :
    programmerDisplay r (typed r.hasDigit (s.map Char.toUpper)) = programmerDisplay r s ↔
      s.head? ≠ some '(' := by
  cases hconverted : r.toBaseTen s with
  | error failure =>
    rw [programmerDisplay, programmerOutcome, programmerValue, hconverted] at h
    exact absurd rfl h
  | ok decimal =>
    have hrewritten := Radix.rewritten_of_toBaseTen hconverted
    have hplain : ∀ c ∈ decimal, IsPlain c := fun c hc =>
      (hrewritten.characters c hc).elim .inl isPlain_of_mem_operators
    have htyped := typed_rewritten hrewritten.map_toUpper
    rw [programmerDisplay, programmerOutcome_of_rewritten hrewritten] at h
    rw [programmerDisplay, programmerDisplay, programmerOutcome_of_rewritten hrewritten,
      programmerOutcome_of_rewritten htyped, Ne,
      ← hrewritten.head?_iff (show '(' ∈ Radix.operators by decide)]
    exact display_typed rfl (Display.ofOutcomeIn_of_sameValue r) hplain
      (Expression.minusBeforePower_programmer decimal) h

/-- A plain text has no call and no symbol. -/
theorem scientificOutcome_of_isPlain (settings : Settings) (hs : ∀ c ∈ s, IsPlain c) :
    settings.scientificOutcome s = .ofResult (evaluate .scientific s) := by
  have hletters : ('π' :: 'e' :: Function.initials).all (fun c => ¬IsPlain c) = true := by decide
  refine settings.scientificOutcome_of_free fun c hc hmem => ?_
  have hletter := List.all_eq_true.mp hletters c hc
  exact absurd (hs c hmem) (of_decide_eq_true hletter)

/-- An expression with a result has no number with two points. -/
theorem hasSinglePoints_of_scientificDisplay {settings : Settings} (hs : ∀ c ∈ s, IsPlain c)
    (h : settings.scientificDisplay s ≠ Display.error) : HasSinglePoints s := by
  rw [Settings.scientificDisplay, scientificOutcome_of_isPlain settings hs] at h
  obtain ⟨x, hvalue⟩ := exists_evaluate rfl h
  have hspace : ' ' ∉ s := fun hmem => absurd (hs _ hmem) (by decide)
  obtain ⟨e, -, hderives, -⟩ := Expression.derives_of_evaluate hspace hvalue
  exact hderives.hasSinglePoints

theorem scientificDisplay_typed {settings : Settings} (hs : ∀ c ∈ s, IsPlain c)
    (hpower : minusBeforePower .scientific s = false)
    (h : settings.scientificDisplay s ≠ Display.error) :
    settings.scientificDisplay (typed Char.isDigit s) = settings.scientificDisplay s ↔
      s.head? ≠ some '(' := by
  have htyped : ∀ c ∈ typed Char.isDigit s, IsPlain c := by
    intro c hc
    rcases List.mem_cons.mp ((typed_suffix Char.isDigit s).subset hc) with rfl | hmem
    · exact .inl (by decide)
    · exact hs c hmem
  rw [Settings.scientificDisplay, scientificOutcome_of_isPlain settings hs] at h
  rw [Settings.scientificDisplay, Settings.scientificDisplay,
    scientificOutcome_of_isPlain settings hs, scientificOutcome_of_isPlain settings htyped]
  exact display_typed rfl (Display.ofOutcome_of_sameValue _) hs hpower h

/-! ## Typing and entering -/

/-- The result that a new programmer keypad shows when the characters of a text have been typed one
by one and it calculates. -/
def Programmer.resultOfKeys (r : Radix) (s : Text) : Text :=
  (Programmer.run r (s.map Programmer.Key.ofChar ++ [.calculate])).result

/-- The result that a new programmer keypad shows when a text has been entered as a line and it
calculates. -/
def Programmer.resultOfLine (r : Radix) (s : Text) : Text :=
  (Programmer.run r [.line s, .calculate]).result

/-- The result that a new scientific keypad shows when the characters of a text have been typed one
by one and it calculates. -/
def Scientific.resultOfKeys (settings : Settings) (s : Text) : Text :=
  (Scientific.run settings (s.map Key.ofChar ++ [.calculate])).result

/-- The result that a new scientific keypad shows when a text has been entered as a line and it
calculates. -/
def Scientific.resultOfLine (settings : Settings) (s : Text) : Text :=
  (Scientific.run settings [.line s, .calculate]).result

theorem Programmer.resultOfKeys_eq {r : Radix}
    (hs : ∀ c ∈ s, r.hasDigit c = true ∨ c ∈ Radix.operators) :
    Programmer.resultOfKeys r s =
      programmerDisplay r (typed r.hasDigit (s.map Char.toUpper)) := by
  rw [resultOfKeys, run_append_singleton, run_map_ofChar r hs]
  rfl

theorem Programmer.resultOfLine_eq {r : Radix}
    (hs : ∀ c ∈ s, r.hasDigit c = true ∨ c ∈ Radix.operators) :
    Programmer.resultOfLine r s = programmerDisplay r s := by
  have hblank : ∀ c ∈ s, Text.isBlank c = false := fun c hc =>
    (hs c hc).elim Radix.isBlank_of_hasDigit
      fun hoperator => isBlank_of_isPlain (isPlain_of_mem_operators hoperator)
  exact congrArg (programmerDisplay r) (Text.trim_eq_self hblank)

theorem Scientific.resultOfKeys_eq (settings : Settings) (hs : ∀ c ∈ s, IsPlain c)
    (hpoints : HasSinglePoints s) :
    Scientific.resultOfKeys settings s =
      settings.scientificDisplay (typed Char.isDigit s) := by
  rw [resultOfKeys, run_append_singleton, run_map_ofChar settings hs hpoints]
  rfl

theorem Scientific.resultOfLine_eq (settings : Settings) (hs : ∀ c ∈ s, IsPlain c) :
    Scientific.resultOfLine settings s = settings.scientificDisplay s :=
  congrArg settings.scientificDisplay (Text.trim_eq_self fun c hc => isBlank_of_isPlain (hs c hc))

/-- **Typing key by key is entering the line, except for what the zero of a new keypad becomes a
part of.** A text of digits, operators and brackets with a result other than `Error` shows the same
result when it is typed, exactly if it does not start with an opening bracket. On the scientific
calculator this holds of all texts but those that start with a minus sign before a power, where the
result is that of the line with a zero before it. -/
theorem typing_shows_line :
    (∀ (r : Radix) (s : Text), (∀ c ∈ s, r.hasDigit c = true ∨ c ∈ Radix.operators) →
      Programmer.resultOfLine r s ≠ Display.error →
      (Programmer.resultOfKeys r s = Programmer.resultOfLine r s ↔ s.head? ≠ some '(')) ∧
    ∀ (settings : Settings) (s : Text), (∀ c ∈ s, c.isDigit = true ∨ c = '.' ∨ c ∈ signs) →
      Scientific.resultOfLine settings s ≠ Display.error →
      (minusBeforePower .scientific s = false →
        (Scientific.resultOfKeys settings s = Scientific.resultOfLine settings s ↔
          s.head? ≠ some '(')) ∧
      (minusBeforePower .scientific s = true →
        Scientific.resultOfKeys settings s = Scientific.resultOfLine settings ('0' :: s)) := by
  constructor
  · intro r s hs h
    rw [Programmer.resultOfLine_eq hs] at h ⊢
    rw [Programmer.resultOfKeys_eq hs]
    exact programmerDisplay_typed h
  · intro settings s hs h
    rw [Scientific.resultOfLine_eq settings hs] at h ⊢
    rw [Scientific.resultOfKeys_eq settings hs (hasSinglePoints_of_scientificDisplay hs h)]
    refine ⟨fun hpower => scientificDisplay_typed hs hpower h, fun hpower => ?_⟩
    have hzero : ∀ c ∈ '0' :: s, IsPlain c := List.forall_mem_cons.mpr ⟨.inl (by decide), hs⟩
    rw [Scientific.resultOfLine_eq settings hzero]
    obtain ⟨t, rfl⟩ : ∃ t, s = '-' :: t := by
      rw [minusBeforePower, Bool.and_eq_true, beq_iff_eq] at hpower
      exact List.head?_eq_some_iff.mp hpower.1
    rfl

/-- Zeros before a digit, a sign at the start, a point without a digit before it, and a minus sign
before a power. -/
theorem typing_shows_line_signed :
    (∀ c ∈ "-00fF*(2-1".toList, Radix.hex.hasDigit c = true ∨ c ∈ Radix.operators) ∧
    Programmer.resultOfLine .hex "-00fF*(2-1".toList = "-FF".toList ∧
    Programmer.resultOfKeys .hex "-00fF*(2-1".toList = "-FF".toList ∧
    (∀ c ∈ "-.5*3".toList, c.isDigit = true ∨ c = '.' ∨ c ∈ signs) ∧
    minusBeforePower .scientific "-.5*3".toList = false ∧
    Scientific.resultOfLine {} "-.5*3".toList = "-1.5".toList ∧
    Scientific.resultOfKeys {} "-.5*3".toList = "-1.5".toList ∧
    (∀ c ∈ "-2^2".toList, c.isDigit = true ∨ c = '.' ∨ c ∈ signs) ∧
    minusBeforePower .scientific "-2^2".toList = true ∧
    Scientific.resultOfLine {} "-2^2".toList ≠ Display.error ∧
    Scientific.resultOfKeys {} "-2^2".toList = Scientific.resultOfLine {} "0-2^2".toList := by
  have hhex : ∀ c ∈ "-00fF*(2-1".toList, Radix.hex.hasDigit c = true ∨ c ∈ Radix.operators := by
    simp [Radix.operators, Radix.hasDigit, Radix.digit?, Radix.digitOf?, Radix.base]
  have hproduct : ∀ c ∈ "-.5*3".toList, c.isDigit = true ∨ c = '.' ∨ c ∈ signs := by simp [signs]
  have hsquare : ∀ c ∈ "-2^2".toList, c.isDigit = true ∨ c = '.' ∨ c ∈ signs := by simp [signs]
  have hinteger : Programmer.resultOfLine .hex "-00fF*(2-1".toList = "-FF".toList := by
    decide +kernel
  have hnumber : Scientific.resultOfLine {} "-.5*3".toList = "-1.5".toList := by decide +kernel
  have hnone : minusBeforePower .scientific "-.5*3".toList = false := by decide
  have hpower : minusBeforePower .scientific "-2^2".toList = true := by decide
  have hshown : Scientific.resultOfLine {} "-2^2".toList ≠ Display.error := by
    have hparse : Expression.parse .scientific "-2^2".toList =
        .ok (.binary .power (.minus (.number ⟨2, 0⟩)) (.number ⟨2, 0⟩)) := by decide
    rw [Scientific.resultOfLine_eq {} hsquare, Ne,
      (Settings.scientificDisplay_tells {} _).malformed, scientificOutcome_of_isPlain {} hsquare,
      evaluate, hparse]
    exact Outcome.ofFloat_ne_malformed _
  have hhexTyped := (typing_shows_line.1 .hex _ hhex (by rw [hinteger]; decide)).mpr (by decide)
  have hproductTyped := ((typing_shows_line.2 {} _ hproduct (by rw [hnumber]; decide)).1 hnone).mpr
    (by decide)
  have hsquareTyped := (typing_shows_line.2 {} _ hsquare hshown).2 hpower
  exact ⟨hhex, hinteger, hhexTyped.trans hinteger, hproduct, hnone, hnumber,
    hproductTyped.trans hnumber, hsquare, hpower, hshown, hsquareTyped⟩

/-- An opening bracket is typed after the zero, which is no expression; and a minus sign that was
the sign of the base of a power becomes a subtraction from zero. -/
theorem typing_joins_zero :
    ("(1+2)".toList.all fun c => Radix.dec.hasDigit c || Radix.operators.contains c) = true ∧
    Programmer.resultOfLine .dec "(1+2)".toList = ['3'] ∧
    Programmer.resultOfKeys .dec "(1+2)".toList = Display.error ∧
    ("(1+2)-2^2".toList.all fun c => IsPlain c) = true ∧
    Scientific.resultOfLine {} "(1+2)".toList = ['3'] ∧
    Scientific.resultOfKeys {} "(1+2)".toList = Display.error ∧
    Expression.parse .scientific "-2^2".toList =
      .ok (.binary .power (.minus (.number ⟨2, 0⟩)) (.number ⟨2, 0⟩)) ∧
    (Scientific.run {} ("-2^2".toList.map Key.ofChar)).expression = "0-2^2".toList ∧
    Expression.parse .scientific "0-2^2".toList =
      .ok (.binary .subtract (.number ⟨0, 0⟩) (.binary .power (.number ⟨2, 0⟩) (.number ⟨2, 0⟩))) :=
  by decide +kernel

end Keypad

end Calculator
