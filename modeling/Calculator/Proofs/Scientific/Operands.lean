import Calculator.Calculation
import Calculator.Proofs.Expression.Pieces
import Calculator.Proofs.Scientific.Confluence
import Calculator.Proofs.Scientific.Substitution

/-!
# Calls are operands

A reduction takes place between any two characters that no double is written with, so a name and its
brackets stay where they are until their call is reduced. If a text has an outcome, no name is left
in the end. So each name with a bracket after it is that of a call which becomes the text of a
double.
-/

namespace Calculator.Reduction

variable {constants : Constants} {s t u a b p q : Text} {f : Function} {c : Char}

/-- A digit or point as it is, or a call and the text of the double that it becomes. The argument of
the call may have calls of its own. -/
inductive Operand (constants : Constants) : Text → Text → Prop
  | character {c : Char} (hc : Expression.isNumeric c = true) : Operand constants [c] [c]
  | call {f : Function} {argument reduced literal : Text}
    (hsteps : Steps constants argument reduced) (hcall : Call.Innermost ⟨f, reduced⟩)
    (hliteral : Call.literal constants ⟨f, reduced⟩ = .ok literal) :
    Operand constants (f.name ++ '(' :: argument ++ [')']) literal

/-- An innermost call is an operand. -/
theorem Operand.of_innermost (call : Call) {literal : Text} (hcall : call.Innermost)
    (hliteral : call.literal constants = .ok literal) : Operand constants call.text literal :=
  .call .refl hcall hliteral

/-- What is written for an operand is what it reduces to. -/
theorem Operand.steps {written literal : Text} (h : Operand constants written literal) :
    Steps constants written literal := by
  cases h with
  | character => exact .refl
  | @call f argument reduced literal hsteps hcall hliteral =>
    have hargument := hsteps.append (f.name ++ ['(']) [')']
    simp only [List.append_assoc, List.singleton_append] at hargument
    have hstep : Step constants (f.name ++ '(' :: (reduced ++ [')'])) literal :=
      .of_eq [] [] hcall hliteral (by simp [Call.text]) (by simp)
    simpa using hargument.tail hstep

/-- The texts on both sides of a character that no double is written with have been reduced on their
own. -/
theorem Step.exists_split (hc : Text.isOfNumber c = false) (h : Step constants s (p ++ c :: q)) :
    ∃ p' q', s = p' ++ c :: q' ∧ Steps constants p' p ∧ Steps constants q' q := by
  generalize hu : p ++ c :: q = u at h
  obtain ⟨before, after, hcall, hliteral⟩ := h
  rename_i call literal
  have hnot : c ∉ literal := by
    obtain ⟨x, rfl⟩ := literal_eq_ofFloat hliteral
    exact Text.not_mem_ofFloat hc x
  rcases List.append_eq_append_iff.mp hu with ⟨m, hleft, hright⟩ | ⟨m, rfl, rfl⟩
  · cases m with
    | nil =>
      obtain rfl : before ++ literal = p := by rw [hleft, List.append_nil]
      obtain rfl : c :: q = after := hright
      have hstep : Step constants (before ++ call.text) (before ++ literal) :=
        .of_eq before [] hcall hliteral (by simp) (by simp)
      exact ⟨before ++ call.text, q, rfl, .single hstep, .refl⟩
    | cons d m =>
      cases hright
      obtain ⟨m', rfl, rfl⟩ := Call.suffix_of_not_mem hnot hleft
      exact ⟨p, m' ++ call.text ++ after, by simp, .refl,
        .single (.of_eq m' after hcall hliteral rfl rfl)⟩
  · exact ⟨before ++ call.text ++ m, q, by simp, .single (.mk before m hcall hliteral), .refl⟩

/-- A reduction takes place before a name, or after its bracket, or it is that of its call. -/
theorem Step.name_cases (h : Step constants (a ++ f.name ++ '(' :: b) u) :
    (∃ a', u = a' ++ f.name ++ '(' :: b) ∨
    (∃ b', Step constants b b' ∧ u = a ++ f.name ++ '(' :: b') ∨
    ∃ argument rest literal, b = argument ++ ')' :: rest ∧ Call.Innermost ⟨f, argument⟩ ∧
      Call.literal constants ⟨f, argument⟩ = .ok literal := by
  generalize hs : a ++ f.name ++ '(' :: b = s at h
  obtain ⟨before, after, hcall, hliteral⟩ := h
  rename_i call literal
  have hopening : (before ++ call.function.name) ++ '(' :: (call.argument ++ ')' :: after) =
      (a ++ f.name) ++ '(' :: b := by simp [hs, Call.text]
  rcases Call.append_cons_cases hopening with ⟨hname, rfl⟩ | ⟨m, hname, hrest⟩ | ⟨m, hname, rfl⟩
  · obtain ⟨-, rfl⟩ := Function.eq_of_append_name hname
    exact .inr (.inr ⟨call.argument, after, literal, rfl, hcall, hliteral⟩)
  · obtain ⟨between, rfl, rfl⟩ := hcall.apart_of_name hname hrest
    exact .inl ⟨before ++ literal ++ between, by simp⟩
  · obtain ⟨m', rfl, rfl⟩ := Call.suffix_of_not_mem (call.function.not_mem_name rfl) hname
    exact .inr (.inl ⟨m' ++ literal ++ after,
      .of_eq m' after hcall hliteral (by simp [Call.text]) rfl, by simp⟩)

/-- By induction on the reductions: a name that is not left in the end is that of an operand. -/
theorem Steps.exists_operand (h : Steps constants (a ++ f.name ++ '(' :: b) t)
    (ht : ¬f.name <:+: t) : ∃ argument rest reduced literal, b = argument ++ ')' :: rest ∧
      Steps constants argument reduced ∧ Call.Innermost ⟨f, reduced⟩ ∧
      Call.literal constants ⟨f, reduced⟩ = .ok literal := by
  generalize hs : a ++ f.name ++ '(' :: b = s at h
  induction h using Relation.ReflTransGen.head_induction_on generalizing a b with
  | refl => exact absurd ⟨a, '(' :: b, hs⟩ ht
  | head hstep _ ih =>
    subst hs
    rcases hstep.name_cases with
      ⟨a', rfl⟩ | ⟨b', hb, rfl⟩ | ⟨argument, rest, literal, rfl, hcall, hliteral⟩
    · exact ih rfl
    · obtain ⟨argument, rest, reduced, literal, rfl, hsteps, hcall, hliteral⟩ := ih rfl
      obtain ⟨argument', rest', rfl, hargument, -⟩ := hb.exists_split (by decide)
      exact ⟨argument', rest', reduced, literal, rfl, hargument.trans hsteps, hcall, hliteral⟩
    · exact ⟨argument, rest, argument, literal, rfl, .refl, hcall, hliteral⟩

end Calculator.Reduction
