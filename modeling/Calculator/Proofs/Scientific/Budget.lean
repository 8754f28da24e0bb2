import Calculator.Proofs.Except
import Calculator.Proofs.Number.Written
import Calculator.Proofs.Scientific.Occurrence
import Calculator.Scientific.Reduction

/-!
# The budget of reductions

Every reduction removes exactly one opening bracket, since the text of a double has none. So the
reduction of first calls ends at a text without calls, or at a call that has no value, before the
budget of one step for each opening bracket is spent, and it makes no difference how much larger the
budget is.
-/

namespace Calculator.Reduction

variable {constants : Constants} {s t : Text} {n : ℕ}

/-! ## Brackets -/

/-- The brackets of a call are the two around its argument. -/
theorem count_bracket_text {call : Call} (hcall : call.Innermost) {c : Char}
    (hc : isBracket c = true) : call.text.count c = 1 := by
  have hname := List.count_eq_zero.mpr (call.function.not_mem_name hc)
  have hargument := List.count_eq_zero.mpr (hcall.not_mem_argument hc)
  rcases isBracket_iff.mp hc with rfl | rfl <;>
    simp [Call.text, hname, hargument]

/-- The text of a double has no brackets. -/
theorem isBracket_not_isOfNumber {c : Char} (hc : isBracket c = true) :
    Text.isOfNumber c = false := by
  rcases isBracket_iff.mp hc with rfl | rfl <;> decide

theorem literal_eq_ofFloat {call : Call} {literal : Text}
    (h : call.literal constants = .ok literal) : ∃ x, literal = Text.ofFloat x := by
  unfold Call.literal at h
  split at h
  · exact ⟨_, (Except.ok.inj h).symm⟩
  · cases h

theorem count_bracket_literal {call : Call} {literal : Text}
    (h : call.literal constants = .ok literal) {c : Char} (hc : isBracket c = true) :
    literal.count c = 0 := by
  obtain ⟨x, rfl⟩ := literal_eq_ofFloat h
  exact List.count_eq_zero.mpr (Text.not_mem_ofFloat (isBracket_not_isOfNumber hc) x)

/-- The text of a value in the place of a call has one opening bracket less, and one closing one. -/
theorem count_bracket_reduced {call : Call} {literal : Text} (before after : Text)
    (hcall : call.Innermost) (h : call.literal constants = .ok literal) {c : Char}
    (hc : isBracket c = true) :
    (before ++ literal ++ after).count c + 1 = (before ++ call.text ++ after).count c := by
  simp only [List.count_append, count_bracket_text hcall hc, count_bracket_literal h hc]
  omega

/-! ## Reductions of first calls -/

/-- A number of reductions, each of the first call of its text, lead from one text to another. -/
inductive FirstSteps (constants : Constants) : Text → ℕ → Text → Prop
  | nil (s : Text) : FirstSteps constants s 0 s
  | cons {s before after literal t : Text} {call : Call} {n : ℕ}
      (hfirst : Call.first? s = some (before, call, after))
      (hliteral : call.literal constants = .ok literal)
      (hrest : FirstSteps constants (before ++ literal ++ after) n t) :
      FirstSteps constants s (n + 1) t

/-- What comes of a text on which the reduction of first calls does not go on: it has no call and is
the result, or its first call has no value, and then the failure is the result. -/
inductive Ends (constants : Constants) (s : Text) : Except Failure Text → Prop
  | reduced (hfirst : Call.first? s = none) : Ends constants s (.ok s)
  | fails {before after : Text} {call : Call} {failure : Failure}
      (hfirst : Call.first? s = some (before, call, after))
      (hliteral : call.literal constants = .error failure) : Ends constants s (.error failure)

/-- Each of the reductions removes one opening bracket. -/
theorem FirstSteps.count_opening (h : FirstSteps constants s n t) :
    t.count '(' + n = s.count '(' := by
  induction h with
  | nil => rfl
  | @cons s before after literal t call n hfirst hliteral _ ih =>
    obtain ⟨hcall, rfl⟩ := Call.first?_sound hfirst
    have hcount := count_bracket_reduced before after hcall hliteral (c := '(') rfl
    omega

/-- The budget is spent on the reductions one by one, and the rest of it is left for their text. -/
theorem FirstSteps.reduceWithin_eq (h : FirstSteps constants s n t) (limit rest : ℕ) :
    reduceWithin constants limit (n + rest) s = reduceWithin constants limit rest t := by
  induction h with
  | nil => rw [Nat.zero_add]
  | @cons s before after literal t call n hfirst hliteral _ ih =>
    rw [Nat.add_right_comm, reduceWithin, hfirst]
    simp only [hliteral]
    exact ih

/-- By induction on the opening brackets: the reductions of first calls end somewhere. -/
theorem exists_ends (constants : Constants) (s : Text) :
    ∃ n t result, FirstSteps constants s n t ∧ Ends constants t result := by
  generalize hcount : s.count '(' = count
  induction count using Nat.strongRecOn generalizing s with
  | ind count ih =>
    cases hfirst : Call.first? s with
    | none => exact ⟨0, s, _, .nil s, .reduced hfirst⟩
    | some found =>
      obtain ⟨before, call, after⟩ := found
      cases hliteral : call.literal constants with
      | error failure => exact ⟨0, s, _, .nil s, .fails hfirst hliteral⟩
      | ok literal =>
        obtain ⟨hcall, hs⟩ := Call.first?_sound hfirst
        have hfewer := count_bracket_reduced before after hcall hliteral (c := '(') rfl
        rw [← hs, hcount] at hfewer
        have hlt : (before ++ literal ++ after).count '(' < count := by omega
        obtain ⟨n, t, result, hsteps, hends⟩ := ih _ hlt _ rfl
        exact ⟨n + 1, t, result, .cons hfirst hliteral hsteps, hends⟩

/-- Where the reductions end, any budget gives the result, if one step is left for a call. -/
theorem Ends.reduceWithin_eq {result : Except Failure Text} (h : Ends constants s result)
    (limit : ℕ) {rest : ℕ} (hrest : s.count '(' ≤ rest) :
    reduceWithin constants limit rest s = result := by
  cases h with
  | reduced hfirst => rw [reduceWithin, hfirst]
  | @fails before after call failure hfirst hliteral =>
    obtain ⟨hcall, rfl⟩ := Call.first?_sound hfirst
    have hcount := count_bracket_text hcall (c := '(') rfl
    rw [List.count_append, List.count_append] at hrest
    obtain ⟨rest, rfl⟩ : ∃ k, rest = k + 1 := ⟨rest - 1, by omega⟩
    rw [reduceWithin, hfirst]
    simp only [hliteral]
    rfl

/-- A budget of one step for each opening bracket leads to the end. -/
theorem FirstSteps.reduceWithin_of_ends {result : Except Failure Text}
    (hsteps : FirstSteps constants s n t) (hends : Ends constants t result) (limit : ℕ) {steps : ℕ}
    (h : s.count '(' ≤ steps) : reduceWithin constants limit steps s = result := by
  have hcount := hsteps.count_opening
  obtain ⟨rest, rfl⟩ : ∃ rest, steps = n + rest := ⟨steps - n, by omega⟩
  rw [hsteps.reduceWithin_eq]
  exact hends.reduceWithin_eq limit (by omega)

theorem FirstSteps.reduceCalls_of_ends {result : Except Failure Text}
    (hsteps : FirstSteps constants s n t) (hends : Ends constants t result) (maxReductions : ℕ) :
    reduceCalls constants maxReductions s = result :=
  hsteps.reduceWithin_of_ends hends _ (Nat.le_max_right _ _)

/-- A call without a value is one whose argument is no expression. -/
theorem literal_eq_error {call : Call} {failure : Failure}
    (h : call.literal constants = .error failure) :
    ∃ u, evaluate .scientific (constants.substitute call.argument) = .error u ∧
      failure = .argument call.function.name (Failure.ofUnexpected u).message := by
  unfold Call.literal at h
  split at h
  · cases h
  · rename_i u hevaluate
    exact ⟨u, hevaluate, (Except.error.inj h).symm⟩

/-- **Reducing function calls always ends within its budget.** Each reduction removes exactly one
opening bracket, and the reductions end after some number of them, whatever the budget is: at a text
without calls, which is then reduced to itself, or at a call whose argument is no expression, and
then the failure names the function and says what is wrong with the argument. -/
theorem reduceCalls_ends (constants : Constants) (s : Text) :
    (∀ n t, FirstSteps constants s n t → t.count '(' + n = s.count '(' ∧ n ≤ s.count '(') ∧
    ∃ result, (∀ maxReductions, reduceCalls constants maxReductions s = result) ∧
      (∃ n t, FirstSteps constants s n t ∧ Ends constants t result) ∧
      (∀ limit, result ≠ .error (.reductions limit)) ∧
      (∀ t, result = .ok t →
        ¬Call.Occurs t ∧ ∀ maxReductions, reduceCalls constants maxReductions t = .ok t) ∧
      ∀ failure, result = .error failure → ∃ (f : Function) (argument : Text) (u : Unexpected),
        evaluate .scientific (constants.substitute argument) = .error u ∧
          failure = .argument f.name (Failure.ofUnexpected u).message := by
  refine ⟨fun n t hsteps => ?_, ?_⟩
  · have hcount := hsteps.count_opening
    exact ⟨hcount, by omega⟩
  · obtain ⟨n, t, result, hsteps, hends⟩ := exists_ends constants s
    refine ⟨result, hsteps.reduceCalls_of_ends hends, ⟨n, t, hsteps, hends⟩, ?_⟩
    cases hends with
    | reduced hfirst =>
      refine ⟨nofun, fun t' ht => ?_, nofun⟩
      cases ht
      exact ⟨Call.first?_eq_none_iff.mp hfirst,
        (FirstSteps.nil t).reduceCalls_of_ends (.reduced hfirst)⟩
    | fails hfirst hliteral =>
      obtain ⟨u, hevaluate, rfl⟩ := literal_eq_error hliteral
      exact ⟨nofun, nofun, fun failure h => ⟨_, _, u, hevaluate, (Except.error.inj h).symm⟩⟩

/-- With no budget but that of its brackets, a root of a root is reduced, and what comes of it is
left as it is; a root without a second factor in its argument fails with what is wrong with it. -/
theorem reduceCalls_ends_roots :
    let failure : Failure := .argument "sqrt" "Syntax error at position 2: unexpected end of input"
    (reduceCalls Constants.standard 0 "1-sqrt(sqrt(16))".toList = .ok "1-2".toList ∧
      ¬Call.Occurs "1-2".toList ∧
      ∀ maxReductions, reduceCalls Constants.standard maxReductions "1-2".toList =
        .ok "1-2".toList) ∧
    reduceCalls Constants.standard 0 "1-sqrt(3*)".toList = .error failure ∧
      ∃ (f : Function) (argument : Text) (u : Unexpected),
        evaluate .scientific (Constants.standard.substitute argument) = .error u ∧
          failure = .argument f.name (Failure.ofUnexpected u).message := by
  intro failure
  have hok : reduceCalls Constants.standard 0 "1-sqrt(sqrt(16))".toList = .ok "1-2".toList := by
    decide +kernel
  have herror : reduceCalls Constants.standard 0 "1-sqrt(3*)".toList = .error failure := by
    decide +kernel
  obtain ⟨-, result, hresult, -, -, hreduced, -⟩ :=
    reduceCalls_ends Constants.standard "1-sqrt(sqrt(16))".toList
  obtain ⟨-, result', hresult', -, -, -, hfails⟩ :=
    reduceCalls_ends Constants.standard "1-sqrt(3*)".toList
  exact ⟨⟨hok, hreduced _ ((hresult 0).symm.trans hok)⟩, herror,
    hfails _ ((hresult' 0).symm.trans herror)⟩

end Calculator.Reduction
