import Calculator.Proofs.Expression.Numeral
import Calculator.Proofs.Radix.Conversion

/-!
# Expressions as runs between operators

Every text is a run of characters that are no operators, or such a run, an operator and another
text. Along this the conversion of an expression to base ten is followed back: what is converted is
its own conversion, written in its base. In base ten the two texts have the same digits up to zeros
at the start of a run, so as numerals they denote the same decimals.
-/

namespace Calculator.Radix

/-- To show something of every text, show it of a run, and of a run with an operator and a text
after it of which it is known. -/
theorem run_induction {P : Text → Prop}
    (run : ∀ run, (∀ c ∈ run, isOperator c = false) → P run)
    (operator : ∀ run c s, (∀ d ∈ run, isOperator d = false) → isOperator c = true → P s →
      P (run ++ c :: s)) (s : Text) : P s := by
  -- what has been passed of the run that the text goes on with
  have hpassed : ∀ s passed : Text, (∀ c ∈ passed, isOperator c = false) → P (passed ++ s) := by
    intro s
    induction s with
    | nil =>
      intro passed hfree
      rw [List.append_nil]
      exact run passed hfree
    | cons c s ih =>
      intro passed hfree
      cases hc : isOperator c with
      | true => exact operator passed c s hfree hc (ih [] nofun)
      | false =>
        rw [← List.singleton_append, ← List.append_assoc]
        apply ih
        rw [List.forall_mem_append, List.forall_mem_singleton]
        exact ⟨hfree, hc⟩
  exact hpassed s [] nofun

/-! ## Converted expressions -/

/-- The texts on both sides of an operator are converted on their own. -/
theorem toBaseTen_split (r : Radix) {c : Char} (hc : isOperator c = true) (a b : Text) :
    r.toBaseTen (a ++ c :: b) = do
      let left ← r.toBaseTen a
      let right ← r.toBaseTen b
      return left ++ c :: right := by
  induction a using run_induction with
  | run run hfree => rw [toBaseTen_append_cons r hfree hc, toBaseTen_of_free r hfree]
  | operator run d a hfree hd ih =>
    rw [List.append_assoc, List.cons_append, toBaseTen_append_cons r hfree hd, ih,
      toBaseTen_append_cons r hfree hd]
    simp only [bind_assoc, pure_bind, List.append_assoc, List.cons_append]

/-- A run that is converted is its conversion, written in its base. -/
theorem sameRun_of_convertRun {r : Radix} {run converted : Text}
    (hfree : ∀ c ∈ run, isOperator c = false) (h : r.convertRun run = .ok converted) :
    SameRun r converted run := by
  cases run with
  | nil =>
    cases h
    exact .empty
  | cons c run =>
    rw [convertRun, if_neg (by simp), parse] at h
    cases hparse : r.parse? (c :: run) with
    | none =>
      rw [hparse] at h
      cases h
    | some n =>
      rw [hparse] at h
      cases h
      obtain ⟨hdigits, hn⟩ := (parse?_eq_some_iff.mp hparse).of_free hfree
      have hvalue := dec.positional_digitsOf n.toInt.natAbs
      have hbound := n.toInt_le
      rw [ofInt64_eq_render, render_of_nonneg dec (by omega)]
      refine .digits (dec.isWritten_digitsOf _).isDigits hdigits ?_ ?_
      · omega
      · omega

/-- An expression that is converted is its conversion, written in its base. -/
theorem rewritten_of_toBaseTen {r : Radix} {s t : Text} (h : r.toBaseTen s = .ok t) :
    Rewritten r t s := by
  induction s using run_induction generalizing t with
  | run run hfree =>
    rw [toBaseTen_of_free r hfree] at h
    exact .run (sameRun_of_convertRun hfree h)
  | operator run c s hfree hc ih =>
    rw [toBaseTen_append_cons r hfree hc] at h
    obtain ⟨converted, hrun, h⟩ := bind_eq_ok_iff.mp h
    obtain ⟨rest, hrest, h⟩ := bind_eq_ok_iff.mp h
    cases h
    exact .operator (sameRun_of_convertRun hfree hrun) (isOperator_iff.mp hc) (ih hrest)

/-- An operator stands between what stands for the texts on both sides of it. -/
theorem Rewritten.split {r : Radix} {a b t : Text} {c : Char} (h : Rewritten r (a ++ c :: b) t)
    (hc : c ∈ operators) : ∃ a' b', t = a' ++ c :: b' ∧ Rewritten r a a' ∧ Rewritten r b b' := by
  generalize hs : a ++ c :: b = s at h
  induction h generalizing a with
  | run hrun =>
    have hfree := hrun.free.1 c (by simp [← hs])
    rw [isOperator_iff.mpr hc] at hfree
    cases hfree
  | @operator decimal digits s t d hrun hd hrest ih =>
    rcases List.append_eq_append_iff.mp hs with ⟨m, rfl, hm⟩ | ⟨m, rfl, hm⟩
    · cases m with
      | nil =>
        cases hm
        exact ⟨digits, t, rfl, .run (by simpa using hrun), hrest⟩
      | cons e m =>
        have hfree := hrun.free.1 e (by simp)
        cases hm
        rw [isOperator_iff.mpr hc] at hfree
        cases hfree
    · cases m with
      | nil =>
        cases hm
        exact ⟨digits, t, rfl, .run (by simpa using hrun), hrest⟩
      | cons e m =>
        cases hm
        obtain ⟨a', b', rfl, ha, hb⟩ := ih rfl
        exact ⟨digits ++ d :: a', b', by simp, .operator hrun hd ha, hb⟩

/-- The text for which a text in base ten stands has no characters but digits and operators. -/
theorem Rewritten.hasDigit_or_mem_operators {r : Radix} {s t : Text} (h : Rewritten r s t) :
    ∀ c ∈ t, r.hasDigit c = true ∨ c ∈ operators := by
  have hdigits {decimal digits : Text} (hrun : SameRun r decimal digits) :
      ∀ c ∈ digits, r.hasDigit c = true ∨ c ∈ operators := by
    cases hrun with
    | empty => exact nofun
    | digits _ hdigits => exact fun c hc => .inl (hdigits.2 c hc)
  induction h with
  | run hrun => exact hdigits hrun
  | operator hrun hc _ ih =>
    rw [List.forall_mem_append, List.forall_mem_cons]
    exact ⟨hdigits hrun, .inr hc, ih⟩

/-- Both texts start with the same operator or bracket, or neither starts with it. -/
theorem Rewritten.head?_iff {r : Radix} {s t : Text} (h : Rewritten r s t) {c : Char}
    (hc : c ∈ operators) : s.head? = some c ↔ t.head? = some c := by
  have hrun {run rest : Text} (hne : run ≠ []) (hfree : ∀ d ∈ run, isOperator d = false) :
      (run ++ rest).head? ≠ some c := by
    obtain ⟨d, run, rfl⟩ := List.exists_cons_of_ne_nil hne
    rintro ⟨⟩
    have hnot := hfree c List.mem_cons_self
    rw [isOperator_iff.mpr hc] at hnot
    cases hnot
  cases h with
  | run h =>
    have hfree := h.free
    cases h with
    | empty => exact Iff.rfl
    | digits hdecimal hdigits _ _ =>
      rw [← List.append_nil s, ← List.append_nil t]
      exact iff_of_false (hrun hdecimal.1 hfree.1) (hrun hdigits.1 hfree.2)
  | operator h _ _ =>
    have hfree := h.free
    cases h with
    | empty => exact Iff.rfl
    | digits hdecimal hdigits _ _ =>
      exact iff_of_false (hrun hdecimal.1 hfree.1) (hrun hdigits.1 hfree.2)

/-! ## Capitals -/

theorem hasDigit_toUpper {r : Radix} {c : Char} (hc : r.hasDigit c = true) :
    r.hasDigit c.toUpper = true ∧ digitValue c.toUpper = digitValue c := by
  revert c
  apply forall_hasDigit
  cases r <;> decide

/-- Digits can be written as capitals. -/
theorem SameRun.map_toUpper {r : Radix} {decimal digits : Text} (h : SameRun r decimal digits) :
    SameRun r decimal (digits.map Char.toUpper) := by
  cases h with
  | empty => exact .empty
  | digits hdecimal hdigits hvalue hbound =>
    have hsame : r.positional (digits.map Char.toUpper) = r.positional digits := by
      rw [positional, positional, ← List.map_reverse, List.map_map]
      congr 1
      exact List.map_congr_left fun c hc =>
        (hasDigit_toUpper (hdigits.2 c (List.mem_reverse.mp hc))).2
    refine .digits hdecimal ⟨by simpa using hdigits.1, ?_⟩ (hsame.trans hvalue) hbound
    exact List.forall_mem_map.mpr fun c hc => (hasDigit_toUpper (hdigits.2 c hc)).1

theorem toUpper_of_mem_operators {c : Char} (hc : c ∈ operators) : c.toUpper = c := by
  have hcapitals : operators.all (fun c => c.toUpper == c) = true := by decide
  exact beq_iff_eq.mp (List.all_eq_true.mp hcapitals c hc)

/-- An expression can be written in capitals. -/
theorem Rewritten.map_toUpper {r : Radix} {s t : Text} (h : Rewritten r s t) :
    Rewritten r s (t.map Char.toUpper) := by
  induction h with
  | run hrun => exact .run hrun.map_toUpper
  | operator hrun hc _ ih =>
    rw [List.map_append, List.map_cons, toUpper_of_mem_operators hc]
    exact .operator hrun.map_toUpper hc ih

/-! ## Two texts in base ten -/

variable {s t : Text}

theorem SameRun.symm (h : SameRun dec s t) : SameRun dec t s := by
  cases h with
  | empty => exact .empty
  | digits hs ht hvalue hbound =>
    rw [← hvalue] at hbound
    exact .digits ht hs hvalue.symm hbound

theorem Rewritten.symm (h : Rewritten dec s t) : Rewritten dec t s := by
  induction h with
  | run hrun => exact .run hrun.symm
  | operator hrun hc _ ih => exact .operator hrun.symm hc ih

theorem Rewritten.eq_nil (h : Rewritten dec [] t) : t = [] := by
  generalize hs : [] = s at h
  cases h with
  | operator => simp at hs
  | run hrun =>
    cases hrun with
    | empty => rfl
    | digits hdecimal => exact absurd hs.symm hdecimal.1

private theorem toNat_le_of_isDigit {c : Char} (hc : c.isDigit = true) : c.toNat ≤ '9'.toNat := by
  simp only [Char.isDigit, Bool.and_eq_true, decide_eq_true_eq] at hc
  exact hc.2

/-- The digits of base ten are the decimal digits. -/
theorem hasDigit_dec (c : Char) : dec.hasDigit c = c.isDigit := by
  rw [hasDigit, digit?, digitOf?]
  cases hc : c.isDigit with
  | true =>
    have hlt : c.toNat - '0'.toNat < dec.base :=
      Nat.lt_of_le_of_lt (Nat.sub_le_sub_right (toNat_le_of_isDigit hc) _) (by decide)
    rw [if_pos rfl, Option.filter_some, if_pos (decide_eq_true hlt), Option.isSome_some]
  | false =>
    have hletter (n : Nat) : ((some (n + 10)).filter (· < dec.base)).isSome = false := by
      rw [Option.filter_some, if_neg (by simp [base]), Option.isSome_none]
    rw [if_neg (by decide)]
    split
    · exact hletter _
    · split
      · exact hletter _
      · rfl

/-- Decimal digits are read at their value by places. -/
theorem ofDigitChars_eq_positional {digits : Text} (h : ∀ c ∈ digits, c.isDigit = true) :
    Nat.ofDigitChars 10 digits 0 = dec.positional digits := by
  induction digits using List.reverseRecOn with
  | nil => rfl
  | append_singleton digits c ih =>
    rw [List.forall_mem_append, List.forall_mem_singleton] at h
    have hlt : c.toNat - '0'.toNat < 16 :=
      Nat.lt_of_le_of_lt (Nat.sub_le_sub_right (toNat_le_of_isDigit h.2) _) (by decide)
    have hvalue : digitValue c = c.toNat - '0'.toNat := digitValue_eq (if_pos h.2) hlt
    rw [Nat.ofDigitChars_append, ih h.1, positional_append_singleton, hvalue, Nat.mul_comm]
    rfl

theorem IsDigits.isDigit (h : dec.IsDigits s) : ∀ c ∈ s, c.isDigit = true := by
  intro c hc
  rw [← hasDigit_dec]
  exact h.2 c hc

/-- Runs that stand for each other denote the same decimal. -/
theorem SameRun.ofNumeral_eq (h : SameRun dec s t) :
    Decimal.ofNumeral s = Decimal.ofNumeral t := by
  cases h with
  | empty => rfl
  | digits hs ht hvalue _ =>
    rw [Decimal.ofNumeral_of_digits hs.isDigit, Decimal.ofNumeral_of_digits ht.isDigit,
      ofDigitChars_eq_positional hs.isDigit, ofDigitChars_eq_positional ht.isDigit, hvalue]

/-- A text in base ten that another one stands for has no characters but digits and operators. -/
theorem Rewritten.characters {r : Radix} {s t : Text} (h : Rewritten r s t) :
    ∀ c ∈ s, c.isDigit = true ∨ c ∈ operators := by
  have hdigits {decimal digits : Text} (hrun : SameRun r decimal digits) :
      ∀ c ∈ decimal, c.isDigit = true ∨ c ∈ operators := by
    intro c hc
    rw [← hasDigit_dec]
    exact .inl (hrun.hasDigit c hc)
  induction h with
  | run hrun => exact hdigits hrun
  | operator hrun hc _ ih =>
    rw [List.forall_mem_append, List.forall_mem_cons]
    exact ⟨hdigits hrun, .inr hc, ih⟩

end Calculator.Radix
