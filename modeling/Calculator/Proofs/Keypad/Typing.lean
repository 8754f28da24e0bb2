import Calculator.Proofs.Keypad.Input
import Calculator.Proofs.Keypad.Points
import Calculator.Proofs.Radix.Runs

/-!
# Typing a text key by key

A keypad starts with `0`. A digit replaces it, and every other character is typed after it, so a
text that is typed key by key loses the zeros at its start and gets one before a sign, a bracket or
a point. This file proves that both keypads then hold this text, the programmer keypad in capitals.
-/

namespace Calculator.Keypad

open Expression (HasPointAtEnd HasSinglePoints isNumeric)

variable {isDigit : Char → Bool} {s t : Text} {c : Char}

/-- What a keypad holds when the characters of a text have been typed one by one. -/
def typed (isDigit : Char → Bool) : Text → Text
  | [] => initial
  | c :: s => if c = '0' then typed isDigit s else if isDigit c then c :: s else '0' :: c :: s

theorem typed_of_digit (hzero : c ≠ '0') (hc : isDigit c = true) :
    typed isDigit (c :: s) = c :: s := by
  rw [typed, if_neg hzero, if_pos hc]

theorem typed_of_not_digit (hzero : isDigit '0' = true) (hc : isDigit c = false) :
    typed isDigit (c :: s) = '0' :: c :: s := by
  have hne : c ≠ '0' := by
    rintro rfl
    rw [hzero] at hc
    cases hc
  rw [typed, if_neg hne, hc, if_neg Bool.false_ne_true]

/-- A digit replaces a lone zero. Everything else is typed after what is there. -/
theorem typed_append_singleton (hzero : isDigit '0' = true) (s : Text) (c : Char) :
    typed isDigit (s ++ [c]) =
      if isDigit c = true ∧ typed isDigit s = initial then [c] else typed isDigit s ++ [c] := by
  induction s with
  | nil =>
    cases hc : isDigit c with
    | false =>
      rw [List.nil_append, typed_of_not_digit hzero hc]
      simp [typed, initial]
    | true =>
      by_cases hne : c = '0'
      · subst hne
        simp [typed, initial]
      · rw [List.nil_append, typed_of_digit hne hc]
        simp [typed]
  | cons d s ih =>
    by_cases hne : d = '0'
    · subst hne
      simpa [typed] using ih
    · have hkept : typed isDigit (d :: s) ≠ initial := by
        rw [typed, if_neg hne]
        split <;> simp [initial, hne]
      rw [if_neg fun h => hkept h.2, List.cons_append, typed, typed, if_neg hne, if_neg hne]
      split <;> rfl

/-- What comes after the digits at the start is typed as it is. -/
theorem typed_append (hzero : isDigit '0' = true) (ht : ∀ c ∈ t.head?, isDigit c = false)
    (s : Text) : typed isDigit (s ++ t) = typed isDigit s ++ t := by
  induction s with
  | nil =>
    cases t with
    | nil => rfl
    | cons c t => exact typed_of_not_digit hzero (ht c rfl)
  | cons d s ih =>
    rw [List.cons_append, typed, typed]
    split
    · exact ih
    · split <;> rfl

theorem typed_suffix (isDigit : Char → Bool) (s : Text) : typed isDigit s <:+ '0' :: s := by
  induction s with
  | nil => exact List.suffix_rfl
  | cons c s ih =>
    rw [typed]
    split
    · rename_i hc
      rw [hc]
      exact ih.trans (List.suffix_cons _ _)
    · split
      · exact List.suffix_cons _ _
      · exact List.suffix_rfl

/-- What does not change with a zero at the start is not changed by typing. -/
theorem apply_typed {α : Type} (f : Text → α) (hf : ∀ s, f ('0' :: s) = f s) (s : Text) :
    f (typed isDigit s) = f s := by
  induction s with
  | nil => exact hf []
  | cons c s ih =>
    rw [typed]
    split
    · rename_i hc
      rw [hc, hf, ih]
    · split
      · rfl
      · exact hf (c :: s)

/-- What has been typed starts with a digit. -/
theorem exists_typed_eq_cons (hzero : isDigit '0' = true) (s : Text) :
    ∃ c t, typed isDigit s = c :: t ∧ isDigit c = true := by
  induction s with
  | nil => exact ⟨'0', [], rfl, hzero⟩
  | cons c s ih =>
    rw [typed]
    split
    · exact ih
    · split
      · rename_i hc
        exact ⟨c, s, rfl, hc⟩
      · exact ⟨'0', c :: s, rfl, hzero⟩

/-! ## The keys of a text -/

/-- The key of the programmer calculator that types a character. -/
def Programmer.Key.ofChar (c : Char) : Programmer.Key :=
  if Radix.isOperator c then .operator c else .digit c

/-- The key of the scientific calculator that types a character. -/
def Key.ofChar (c : Char) : Key :=
  if c.isDigit then .digits [c] else if c = '.' then .point else .operator [c]

theorem hasDigit_zero (r : Radix) : r.hasDigit '0' = true := by cases r <;> decide

/-- By induction from the end of the text: what has been typed on the programmer calculator. -/
theorem Programmer.run_map_ofChar (r : Radix)
    (hs : ∀ c ∈ s, r.hasDigit c = true ∨ c ∈ Radix.operators) :
    Programmer.run r (s.map Programmer.Key.ofChar) =
      { input := typed r.hasDigit (s.map Char.toUpper), radix := r } := by
  induction s using List.reverseRecOn with
  | nil => rfl
  | append_singleton s c ih =>
    rw [List.forall_mem_append, List.forall_mem_singleton] at hs
    rw [List.map_append, List.map_singleton, run_append_singleton, ih hs.1, List.map_append,
      List.map_singleton, typed_append_singleton (hasDigit_zero r), Key.ofChar]
    rcases hs.2 with hdigit | hoperator
    · rw [Radix.isOperator_eq_false_of_hasDigit hdigit, if_neg Bool.false_ne_true, press,
        pressDigit?, if_pos hdigit]
      by_cases hlone : typed r.hasDigit (s.map Char.toUpper) = initial
      · simp [hlone, Radix.hasDigit_toUpper hdigit]
      · simp [hlone]
    · have hkey := Radix.isOperator_iff.mpr hoperator
      have hdigit : r.hasDigit c = false := Radix.hasDigit_of_mem_operators hoperator
      rw [hkey, if_pos rfl, press, pressOperator?, if_pos hkey,
        Radix.toUpper_of_mem_operators hoperator, hdigit, if_neg (by simp)]
      rfl

/-- A character of the expressions without calls and constants. -/
def IsPlain (c : Char) : Prop := c.isDigit = true ∨ c = '.' ∨ c ∈ signs

instance (c : Char) : Decidable (IsPlain c) := inferInstanceAs (Decidable (_ ∨ _ ∨ _))

theorem not_isNumeric_of_mem_signs (hc : c ∈ signs) : isNumeric c = false := by
  have hsigns : signs.all (!isNumeric ·) = true := by decide
  simpa using List.all_eq_true.mp hsigns c hc

/-- Where a second point would be refused, the text already has two points in one number. -/
theorem not_hasPointAtEnd_typed (hpoints : HasSinglePoints (s ++ ['.'])) :
    ¬HasPointAtEnd (typed Char.isDigit s) := by
  rintro ⟨run, hrun, hnumeric, hmem⟩
  obtain ⟨before, after, rfl⟩ := List.append_of_mem hmem
  rw [List.forall_mem_append] at hnumeric
  -- the number goes on with `after` from its point to the end of the text
  have htyped : '.' :: after <:+ '0' :: s :=
    ((List.suffix_append before _).trans hrun).trans (typed_suffix _ s)
  rcases List.suffix_cons_iff.mp htyped with hsame | ⟨earlier, rfl⟩
  · exact absurd (List.cons.inj hsame).1 (by decide)
  · have hnumber : ∀ c ∈ '.' :: after ++ ['.'], isNumeric c = true :=
      List.forall_mem_append.mpr ⟨hnumeric.2, List.forall_mem_singleton.mpr (by decide)⟩
    have hcount := hpoints _ ⟨earlier, [], by simp⟩ hnumber
    simp [List.count_append] at hcount

/-- By induction from the end of the text: what has been typed on the scientific calculator. -/
theorem Scientific.run_map_ofChar (settings : Settings) (hs : ∀ c ∈ s, IsPlain c)
    (hpoints : HasSinglePoints s) :
    Scientific.run settings (s.map Key.ofChar) = { expression := typed Char.isDigit s } := by
  induction s using List.reverseRecOn with
  | nil => rfl
  | append_singleton s c ih =>
    rw [List.forall_mem_append, List.forall_mem_singleton] at hs
    have hearlier := hpoints.of_infix (List.prefix_append s [c]).isInfix
    rw [List.map_append, List.map_singleton, run_append_singleton, ih hs.1 hearlier,
      typed_append_singleton (by decide), Key.ofChar]
    rcases hs.2 with hdigit | rfl | hsign
    · rw [if_pos hdigit, press, pressDigits]
      by_cases hlone : typed Char.isDigit s = initial
      · simp [hlone, hdigit]
      · simp [hlone]
    · rw [if_neg (by decide), if_pos rfl, press,
        pressPoint_of_not_hasPointAtEnd (not_hasPointAtEnd_typed hpoints),
        if_neg (by simp [Decimal.point_not_isDigit])]
    · obtain ⟨hdigit, hpoint⟩ : c.isDigit = false ∧ c ≠ '.' := by
        simpa [isNumeric] using not_isNumeric_of_mem_signs hsign
      have hshows : showsValue { expression := typed Char.isDigit s } = false :=
        showsValue_eq_false_iff.mpr (.inl rfl)
      rw [hdigit, if_neg Bool.false_ne_true, if_neg hpoint, press, pressOperator, hshows,
        if_neg Bool.false_ne_true, if_neg (by simp)]

end Calculator.Keypad
