import Calculator.Proofs.Scientific.Budget
import Mathlib.Logic.Relation

/-!
# The order of reductions makes no difference

The reduction of a text always takes its first call. Here any call may be taken. Two calls of a text
stand apart, so each is still there after the other is reduced, and the two reductions can be done
in either order with the same result. A call that cannot be reduced stays in the text for the same
reason. Every reduction removes one opening bracket, so none goes on for ever.
-/

namespace Calculator.Reduction

variable {constants : Constants} {s t u v : Text}

/-- One reduction: some call of the text, which need not be the first, is replaced by the text of
its value. -/
inductive Step (constants : Constants) : Text → Text → Prop
  | mk (before after : Text) {call : Call} {literal : Text} (hcall : call.Innermost)
      (hliteral : call.literal constants = .ok literal) :
      Step constants (before ++ call.text ++ after) (before ++ literal ++ after)

/-- Some call of the text cannot be reduced, since its argument is no expression. -/
def Fails (constants : Constants) (s : Text) : Prop :=
  ∃ (before : Text) (call : Call) (after : Text) (failure : Failure),
    call.Innermost ∧ call.literal constants = .error failure ∧ s = before ++ call.text ++ after

/-- Any number of reductions, one after the other. -/
abbrev Steps (constants : Constants) : Text → Text → Prop := Relation.ReflTransGen (Step constants)

theorem Step.of_eq (before after : Text) {literal : Text} {call : Call} (hcall : call.Innermost)
    (hliteral : call.literal constants = .ok literal) (hs : s = before ++ call.text ++ after)
    (hu : u = before ++ literal ++ after) : Step constants s u := by
  rw [hs, hu]
  exact .mk before after hcall hliteral

/-- Reductions go on within a longer text. -/
theorem Step.append (a b : Text) (h : Step constants s u) :
    Step constants (a ++ s ++ b) (a ++ u ++ b) := by
  obtain ⟨before, after, hcall, hliteral⟩ := h
  exact .of_eq (a ++ before) (after ++ b) hcall hliteral (by simp) (by simp)

theorem Steps.append (a b : Text) (h : Steps constants s u) :
    Steps constants (a ++ s ++ b) (a ++ u ++ b) := by
  induction h with
  | refl => exact .refl
  | tail _ hstep ih => exact ih.tail (hstep.append a b)

/-- A text with a call can be reduced or fails. -/
theorem step_or_fails (h : Call.Occurs s) : (∃ u, Step constants s u) ∨ Fails constants s := by
  obtain ⟨before, call, after, hcall, rfl⟩ := h
  cases hliteral : call.literal constants with
  | ok literal => exact .inl ⟨_, .mk before after hcall hliteral⟩
  | error failure => exact .inr ⟨before, call, after, failure, hcall, hliteral, rfl⟩

theorem Fails.occurs (h : Fails constants s) : Call.Occurs s := by
  obtain ⟨before, call, after, _, hcall, _, hs⟩ := h
  exact ⟨before, call, after, hcall, hs⟩

theorem Step.occurs (h : Step constants s u) : Call.Occurs s := by
  obtain ⟨before, after, hcall, _⟩ := h
  exact ⟨before, _, after, hcall, rfl⟩

/-! ## Calls that stand apart -/

/-- Two reductions of one text agree, or both can be followed by the other one. -/
theorem Step.diamond (hu : Step constants s u) (hv : Step constants s v) :
    u = v ∨ ∃ w, Step constants u w ∧ Step constants v w := by
  obtain ⟨before₁, after₁, hcall₁, hliteral₁⟩ := hu
  rename_i call₁ literal₁
  generalize hs : before₁ ++ call₁.text ++ after₁ = s at hv
  obtain ⟨before₂, after₂, hcall₂, hliteral₂⟩ := hv
  rename_i call₂ literal₂
  rcases hcall₁.same_or_apart hcall₂ hs with
    ⟨rfl, rfl, rfl⟩ | ⟨between, rfl, rfl⟩ | ⟨between, rfl, rfl⟩
  · rw [hliteral₁] at hliteral₂
    cases hliteral₂
    exact .inl rfl
  · refine .inr ⟨before₁ ++ literal₁ ++ between ++ literal₂ ++ after₂, ?_, ?_⟩
    · exact .of_eq (before₁ ++ literal₁ ++ between) after₂ hcall₂ hliteral₂ (by simp) rfl
    · exact .of_eq before₁ (between ++ literal₂ ++ after₂) hcall₁ hliteral₁ (by simp) (by simp)
  · refine .inr ⟨before₂ ++ literal₂ ++ between ++ literal₁ ++ after₁, ?_, ?_⟩
    · exact .of_eq before₂ (between ++ literal₁ ++ after₁) hcall₂ hliteral₂ (by simp) (by simp)
    · exact .of_eq (before₂ ++ literal₂ ++ between) after₁ hcall₁ hliteral₁ (by simp) rfl

/-- A call that cannot be reduced outlasts every reduction of another one. -/
theorem Fails.of_step (hfails : Fails constants s) (hstep : Step constants s u) :
    Fails constants u := by
  obtain ⟨before₁, call₁, after₁, failure, hcall₁, herror, hs⟩ := hfails
  obtain ⟨before₂, after₂, hcall₂, hliteral⟩ := hstep
  rename_i call₂ literal
  rcases hcall₁.same_or_apart hcall₂ hs.symm with
    ⟨rfl, rfl, rfl⟩ | ⟨between, rfl, rfl⟩ | ⟨between, rfl, rfl⟩
  · rw [herror] at hliteral
    cases hliteral
  · exact ⟨before₁, call₁, between ++ literal ++ after₂, failure, hcall₁, herror, by simp⟩
  · exact ⟨before₂ ++ literal ++ between, call₁, after₁, failure, hcall₁, herror, by simp⟩

theorem Fails.of_steps (hfails : Fails constants s) (hsteps : Steps constants s u) :
    Fails constants u := by
  induction hsteps with
  | refl => exact hfails
  | tail _ hstep ih => exact ih.of_step hstep

/-- Texts that one text reduces to can be reduced to a common one. -/
theorem confluent (hu : Steps constants s u) (hv : Steps constants s v) :
    ∃ w, Steps constants u w ∧ Steps constants v w := by
  refine Relation.church_rosser (fun a b c hb hc => ?_) hu hv
  rcases hb.diamond hc with rfl | ⟨d, hbd, hcd⟩
  · exact ⟨b, .refl, .refl⟩
  · exact ⟨d, .single hbd, .single hcd⟩

/-- A text without calls cannot be reduced. -/
theorem Steps.eq_of_not_occurs (h : Steps constants s u) (hs : ¬Call.Occurs s) : u = s := by
  rcases Relation.ReflTransGen.cases_head h with rfl | ⟨v, hstep, _⟩
  · rfl
  · exact absurd hstep.occurs hs

/-- What a text reduces to reduces further to any text without calls that the first one reduces
to. -/
theorem Steps.of_normal (hu : Steps constants s u) (ht : Steps constants s t)
    (hnormal : ¬Call.Occurs t) : Steps constants u t := by
  obtain ⟨w, huw, htw⟩ := confluent hu ht
  rwa [htw.eq_of_not_occurs hnormal] at huw

/-! ## Opening brackets -/

/-- Every reduction removes one opening bracket. -/
theorem Step.count_opening (h : Step constants s u) : u.count '(' + 1 = s.count '(' := by
  obtain ⟨before, after, hcall, hliteral⟩ := h
  exact count_bracket_reduced before after hcall hliteral rfl

/-- No text can be reduced for ever. -/
theorem not_forever (texts : ℕ → Text) : ¬∀ i, Step constants (texts i) (texts (i + 1)) := by
  intro hsteps
  have hcount : ∀ i, (texts i).count '(' + i = (texts 0).count '(' := by
    intro i
    induction i with
    | zero => rfl
    | succ i ih =>
      have hstep := (hsteps i).count_opening
      omega
  have hlast := hcount ((texts 0).count '(' + 1)
  omega

/-! ## The reduction of first calls -/

theorem FirstSteps.steps {n : ℕ} (h : FirstSteps constants s n t) : Steps constants s t := by
  induction h with
  | nil => exact .refl
  | cons hfirst hliteral _ ih =>
    obtain ⟨hcall, hs⟩ := Call.first?_sound hfirst
    exact ih.head (.of_eq _ _ hcall hliteral hs rfl)

/-- Reducing first calls ends at a text without calls or at one that fails. -/
theorem reduceCalls_cases (constants : Constants) (maxReductions : ℕ) (s : Text) :
    (∃ t, reduceCalls constants maxReductions s = .ok t ∧ Steps constants s t ∧
      ¬Call.Occurs t) ∨
    ∃ failure u, reduceCalls constants maxReductions s = .error failure ∧
      Steps constants s u ∧ Fails constants u := by
  obtain ⟨n, u, result, hsteps, hends⟩ := exists_ends constants s
  rw [hsteps.reduceCalls_of_ends hends]
  cases hends with
  | reduced hfirst => exact .inl ⟨u, rfl, hsteps.steps, Call.first?_eq_none_iff.mp hfirst⟩
  | fails hfirst hliteral =>
    obtain ⟨hcall, hu⟩ := Call.first?_sound hfirst
    exact .inr ⟨_, u, rfl, hsteps.steps, _, _, _, _, hcall, hliteral, hu⟩

/-- A text is reduced to `t` exactly when some reductions lead from it to `t` and `t` has no call.
-/
theorem reduceCalls_eq_ok_iff {maxReductions : ℕ} :
    reduceCalls constants maxReductions s = .ok t ↔ Steps constants s t ∧ ¬Call.Occurs t := by
  constructor
  · intro h
    rcases reduceCalls_cases constants maxReductions s with
      ⟨t', ht', hsteps, hnormal⟩ | ⟨failure, u, hu, _⟩
    · cases h.symm.trans ht'
      exact ⟨hsteps, hnormal⟩
    · cases h.symm.trans hu
  · rintro ⟨hsteps, hnormal⟩
    rcases reduceCalls_cases constants maxReductions s with
      ⟨t', ht', hsteps', hnormal'⟩ | ⟨failure, u, _, hsteps', hfails⟩
    · have heq : t' = t := (hsteps.of_normal hsteps' hnormal').eq_of_not_occurs hnormal
      exact heq ▸ ht'
    · exact absurd (hfails.of_steps (hsteps'.of_normal hsteps hnormal)).occurs hnormal

/-- **Reducing function calls does not depend on the order.** If reducing first calls gives `t`,
then however calls are chosen, no reduction ever fails, none goes on for ever, and where no call can
be reduced any more the text is `t`. If it fails, then no choice of calls leads to a text without
calls. -/
theorem reduceCalls_confluent (constants : Constants) (maxReductions : ℕ) (s : Text) :
    (∀ t, reduceCalls constants maxReductions s = .ok t →
      Steps constants s t ∧
      (∀ u, Steps constants s u → ¬Fails constants u ∧ ((∀ v, ¬Step constants u v) → u = t)) ∧
      (∀ texts : ℕ → Text, texts 0 = s → ¬∀ i, Step constants (texts i) (texts (i + 1)))) ∧
    (∀ failure, reduceCalls constants maxReductions s = .error failure →
      ∀ u, Steps constants s u → Call.Occurs u) := by
  constructor
  · intro t h
    obtain ⟨hsteps, hnormal⟩ := reduceCalls_eq_ok_iff.mp h
    refine ⟨hsteps, fun u hu => ?_, fun texts _ => not_forever texts⟩
    have hfails : ¬Fails constants u := fun hfails =>
      hnormal (hfails.of_steps (hu.of_normal hsteps hnormal)).occurs
    refine ⟨hfails, fun hstuck => ?_⟩
    have hu' : ¬Call.Occurs u := by
      intro hoccurs
      rcases step_or_fails hoccurs with ⟨v, hstep⟩ | hfails'
      · exact hstuck v hstep
      · exact hfails hfails'
    exact ((hsteps.of_normal hu hu').eq_of_not_occurs hnormal)
  · intro failure h u hu
    by_contra hnormal
    rw [reduceCalls_eq_ok_iff.mpr ⟨hu, hnormal⟩] at h
    cases h

/-- Two roots are reduced to `3+4` in either order, and no order gets rid of both calls where one of
them has no argument to evaluate. -/
theorem reduceCalls_confluent_roots :
    (∀ u, Steps Constants.standard "sqrt(9)+sqrt(16)".toList u →
      (∀ v, ¬Step Constants.standard u v) → u = "3+4".toList) ∧
    ∀ u, Steps Constants.standard "sqrt(9)+sqrt(+)".toList u → Call.Occurs u := by
  have hok : reduceCalls Constants.standard 64 "sqrt(9)+sqrt(16)".toList = .ok "3+4".toList := by
    decide +kernel
  have hfailure : ∃ failure,
      reduceCalls Constants.standard 64 "sqrt(9)+sqrt(+)".toList = .error failure :=
    ⟨.argument Function.sqrt.name (Failure.ofUnexpected ⟨1, .ending⟩).message, by decide +kernel⟩
  obtain ⟨failure, herror⟩ := hfailure
  exact ⟨fun u hu => (((reduceCalls_confluent Constants.standard 64 _).1 _ hok).2.1 u hu).2,
    (reduceCalls_confluent Constants.standard 64 _).2 failure herror⟩

end Calculator.Reduction
