import Calculator.Proofs.Except
import Calculator.Proofs.Scientific.Confluence
import Calculator.Proofs.Scientific.Substitution

/-!
# Writing the constants and reducing calls

A name has no symbol, and the text of a double has no bracket and ends with no letter of a name. So
writing the constants neither makes nor breaks a call, whatever the text around the symbols is, and
the first call stays the first one. The argument of a call is evaluated with the constants written
in it, so its value does not depend on whether they have been written before. It follows that the
constants may be written before, between or after the reductions.
-/

namespace Calculator

/-- No letter of a name may end the text of a double. -/
theorem Function.name_endsNumber (f : Function) : ∀ c ∈ f.name, Text.endsNumber c = false := by
  have hname : f.name.all (!Text.endsNumber ·) = true := by cases f <;> decide
  simpa using hname

variable (constants : Constants)

namespace Call

/-- A call with the constants written in its argument. -/
def substitute (constants : Constants) (call : Call) : Call :=
  { call with argument := constants.substitute call.argument }

theorem substitute_name (f : Function) : constants.substitute f.name = f.name := by
  apply constants.substitute_eq_self <;> cases f <;> decide

theorem substitute_text (call : Call) :
    constants.substitute call.text = (call.substitute constants).text := by
  have hbracket : ∀ c, isBracket c = true → constants.substitute [c] = [c] := by
    intro c hc
    rcases isBracket_iff.mp hc with rfl | rfl
    · exact constants.substitute_cons (by decide) (by decide) []
    · exact constants.substitute_cons (by decide) (by decide) []
  rw [text, ← List.singleton_append, constants.substitute_append, constants.substitute_append,
    constants.substitute_append, substitute_name, hbracket '(' rfl, hbracket ')' rfl]
  rfl

/-- Writing the constants leaves every bracket and adds none. -/
theorem plain_substitute_iff (s : Text) :
    (∀ c ∈ constants.substitute s, isBracket c = false) ↔ ∀ c ∈ s, isBracket c = false := by
  have hplain : ∀ t : Text, (∀ c ∈ t, isBracket c = false) ↔
      t.count '(' = 0 ∧ t.count ')' = 0 := by
    intro t
    rw [List.count_eq_zero, List.count_eq_zero]
    constructor
    · intro h
      exact ⟨fun hmem => absurd (h _ hmem) (by decide), fun hmem => absurd (h _ hmem) (by decide)⟩
    · rintro ⟨hopening, hclosing⟩ c hc
      have hne : c ≠ '(' ∧ c ≠ ')' := by
        constructor <;> rintro rfl <;> contradiction
      simp [isBracket, hne]
  rw [hplain, hplain, constants.count_substitute (by decide) (by decide) (by decide),
    constants.count_substitute (by decide) (by decide) (by decide)]

theorem innermost_substitute_iff {call : Call} :
    (call.substitute constants).Innermost ↔ call.Innermost := by
  have hplain := plain_substitute_iff constants call.argument
  constructor
  · rintro ⟨hne, hcall⟩
    exact ⟨mt constants.substitute_eq_nil_iff.mpr hne, hplain.mp hcall⟩
  · rintro ⟨hne, hcall⟩
    exact ⟨mt constants.substitute_eq_nil_iff.mp hne, hplain.mpr hcall⟩

/-- A text has a call exactly if it has one with the constants written in it. -/
theorem occurs_substitute_iff {s : Text} : Occurs (constants.substitute s) ↔ Occurs s := by
  constructor
  · -- the brackets of the call were there before, and with them its name
    rintro ⟨before, call, after, hcall, hs⟩
    have hopening : constants.substitute s =
        (before ++ call.function.name) ++ '(' :: (call.argument ++ ')' :: after) := by
      simpa [text] using hs
    obtain ⟨start, rest, rfl, hstart, hrest⟩ :=
      constants.exists_of_substitute_eq_append_cons (by decide) hopening
    obtain ⟨argument, after', rfl, hargument, -⟩ :=
      constants.exists_of_substitute_eq_append_cons (by decide) hrest
    obtain ⟨before', rfl, -⟩ :=
      constants.exists_of_substitute_eq_append (Function.name_endsNumber _) hstart
    have hinnermost : (Call.mk call.function argument).Innermost := by
      rw [← innermost_substitute_iff constants, substitute, hargument]
      exact hcall
    exact ⟨before', ⟨call.function, argument⟩, after', hinnermost, by simp [text]⟩
  · rintro ⟨before, call, after, hcall, rfl⟩
    refine ⟨constants.substitute before, call.substitute constants, constants.substitute after,
      (innermost_substitute_iff constants).mpr hcall, ?_⟩
    rw [constants.substitute_append, constants.substitute_append, substitute_text]

/-- The first call of a text is the first one with the constants written. -/
theorem first?_substitute (s : Text) :
    first? (constants.substitute s) = (first? s).map fun (before, call, after) =>
      (constants.substitute before, call.substitute constants, constants.substitute after) := by
  cases hfirst : first? s with
  | none =>
    rw [Option.map_none, first?_eq_none_iff, occurs_substitute_iff]
    exact first?_eq_none_iff.mp hfirst
  | some found =>
    obtain ⟨before, call, after⟩ := found
    obtain ⟨hcall, rfl, hbefore⟩ := first?_eq_some_iff.mp hfirst
    rw [Option.map_some, first?_eq_some_iff, innermost_substitute_iff, occurs_substitute_iff,
      constants.substitute_append, constants.substitute_append, substitute_text]
    exact ⟨hcall, rfl, hbefore⟩

/-- A call has the same value or failure with the constants written in its argument. -/
theorem literal_substitute (call : Call) :
    (call.substitute constants).literal constants = call.literal constants := by
  rw [literal, literal, substitute, constants.substitute_substitute]

end Call

namespace Reduction

/-- By induction on the budget: the reductions take the same calls and fail at the same one. -/
theorem reduceWithin_substitute (limit steps : ℕ) (s : Text) :
    reduceWithin constants limit steps (constants.substitute s) =
      (reduceWithin constants limit steps s).map constants.substitute := by
  induction steps generalizing s with
  | zero =>
    rw [reduceWithin, reduceWithin, Call.first?_substitute]
    cases Call.first? s <;> rfl
  | succ steps ih =>
    rw [reduceWithin, reduceWithin, Call.first?_substitute]
    cases Call.first? s with
    | none => rfl
    | some found =>
      obtain ⟨before, call, after⟩ := found
      simp only [Option.map_some, Call.literal_substitute]
      cases hliteral : call.literal constants with
      | error failure => rfl
      | ok literal =>
        obtain ⟨x, rfl⟩ := literal_eq_ofFloat hliteral
        have hwritten : constants.substitute (before ++ Text.ofFloat x ++ after) =
            constants.substitute before ++ Text.ofFloat x ++ constants.substitute after := by
          rw [constants.substitute_append, constants.substitute_append,
            constants.substitute_ofFloat]
        rw [ok_bind, ok_bind, ← hwritten]
        exact ih _

theorem reduceCalls_map_substitute (maxReductions : ℕ) (s : Text) :
    reduceCalls constants maxReductions (constants.substitute s) =
      (reduceCalls constants maxReductions s).map constants.substitute := by
  have hcount : (constants.substitute s).count '(' = s.count '(' :=
    constants.count_substitute (by decide) (by decide) (by decide) s
  rw [reduceCalls, reduceCalls, hcount]
  exact reduceWithin_substitute constants _ _ s

/-- **It makes no difference when the constants are written.** Reducing the calls of a text with the
constants written in it gives what reducing the text gives, with the constants written in that, or
the same failure. So the constants may be written once more after they have been written before,
and they may be written between any two reductions, whichever calls these take. -/
theorem reduceCalls_substitute (constants : Constants) (maxReductions : ℕ) (s : Text) :
    reduceCalls constants maxReductions (constants.substitute s) =
      (reduceCalls constants maxReductions s).map constants.substitute ∧
    (reduceCalls constants maxReductions (constants.substitute s)).map constants.substitute =
      (reduceCalls constants maxReductions s).map constants.substitute ∧
    ∀ t u, reduceCalls constants maxReductions s = .ok t → Steps constants s u →
      reduceCalls constants maxReductions (constants.substitute u) =
        .ok (constants.substitute t) := by
  refine ⟨reduceCalls_map_substitute constants maxReductions s, ?_, fun t u ht hu => ?_⟩
  · rw [reduceCalls_map_substitute]
    cases reduceCalls constants maxReductions s with
    | error failure => rfl
    | ok t => exact congrArg Except.ok (constants.substitute_substitute constants t)
  · obtain ⟨hsteps, hnormal⟩ := reduceCalls_eq_ok_iff.mp ht
    have hrest : reduceCalls constants maxReductions u = .ok t :=
      reduceCalls_eq_ok_iff.mpr ⟨hu.of_normal hsteps hnormal, hnormal⟩
    rw [reduceCalls_map_substitute, hrest]
    rfl

/-- The constants four and infinity, written before two calls are reduced and after the second one
is. -/
theorem reduceCalls_substitute_infinite :
    let constants : Constants := ⟨4, 1.0 / 0.0⟩
    let s : Text := "sqrt(π)+sqrt(9)*e".toList
    reduceCalls constants 64 s = .ok "2+3*e".toList ∧
    Steps constants s "sqrt(π)+3*e".toList ∧
    reduceCalls constants 64 "sqrt(4)+sqrt(9)*inf".toList = .ok "2+3*inf".toList ∧
    reduceCalls constants 64 "sqrt(4)+3*inf".toList = .ok "2+3*inf".toList := by
  intro constants s
  have hreduced : reduceCalls constants 64 s = .ok "2+3*e".toList := by
    decide +kernel
  have hcall : Call.Innermost ⟨.sqrt, ['9']⟩ :=
    ⟨List.cons_ne_nil _ _, List.forall_mem_singleton.mpr (by decide)⟩
  have hliteral : Call.literal constants ⟨.sqrt, ['9']⟩ = .ok ['3'] := by decide +kernel
  have hstep : Step constants s "sqrt(π)+3*e".toList :=
    .of_eq "sqrt(π)+".toList "*e".toList hcall hliteral (by decide) (by decide)
  have hbefore : constants.substitute s = "sqrt(4)+sqrt(9)*inf".toList := by decide +kernel
  have hbetween : constants.substitute "sqrt(π)+3*e".toList = "sqrt(4)+3*inf".toList := by
    decide +kernel
  have hafter : constants.substitute "2+3*e".toList = "2+3*inf".toList := by decide +kernel
  obtain ⟨-, -, hany⟩ := reduceCalls_substitute constants 64 s
  refine ⟨hreduced, .single hstep, ?_, ?_⟩
  · rw [← hbefore, hany _ s hreduced .refl, hafter]
  · rw [← hbetween, hany _ _ hreduced (.single hstep), hafter]

end Reduction

end Calculator
