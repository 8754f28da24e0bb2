import Calculator.Proofs.Display
import Calculator.Proofs.Expression.Points
import Calculator.Proofs.Scientific.Commutation
import Calculator.Proofs.Scientific.Operands

/-!
# Calls next to other operands

The text of its value is written in the place of a call, whatever stands there. Next to a digit, a
point or another call it meets other characters of operands. If they are no digits and points, the
text is no expression any more, and otherwise they are read as one number. The reductions before
cannot hide such a place, since an argument in which operands meet has no value.
-/

namespace Calculator

open Expression (OperandsApart isEdge isNumeric)
open Reduction (Operand Step Steps)

variable {constants : Constants} {settings : Settings} {s u : Text}

/-! ## Names and constants between operands -/

theorem Expression.OperandsApart.of_not_any_isEdge (hs : s.any isEdge = false) :
    OperandsApart s := by
  intro run hrun hedge
  cases run with
  | nil => exact .number nofun (Nat.zero_le 1)
  | cons c run =>
    have hnot := List.any_eq_false.mp hs c (hrun.subset List.mem_cons_self)
    exact absurd (hedge c List.mem_cons_self) hnot

/-- A name starts with a letter that is at no edge of an operand, and no two operands meet in the
rest of it. -/
theorem Function.exists_name_eq_cons (f : Function) :
    ∃ c letters, f.name = c :: letters ∧ isEdge c = false ∧ OperandsApart letters := by
  cases f with
  | sin =>
    have hletters : OperandsApart ['i', 'n'] :=
      (OperandsApart.singleton 'i').append_cons (by decide) .nil
    exact ⟨_, _, rfl, by decide, hletters⟩
  | cos | tan | log | ln | sqrt =>
    exact ⟨_, _, rfl, by decide, .of_not_any_isEdge (by decide)⟩

/-- Operands that meet before the constants are written meet afterwards as well. -/
theorem Constants.operandsApart_of_substitute (h : OperandsApart (constants.substitute s)) :
    OperandsApart s := by
  intro run hrun hedge
  obtain ⟨before, after, rfl⟩ := hrun
  have hsymbol {c : Char} (hc : isEdge c = false) : c ∉ run := fun hmem => by
    rw [hedge c hmem] at hc
    cases hc
  refine h run ?_ hedge
  rw [constants.substitute_append, constants.substitute_append,
    constants.substitute_eq_self (s := run) (hsymbol (by decide)) (hsymbol (by decide))]
  exact List.infix_append ..

theorem operandsApart_of_literal {call : Call} {literal : Text}
    (h : call.literal constants = .ok literal) : OperandsApart call.argument := by
  unfold Call.literal at h
  split at h
  · rename_i hevaluate
    exact Constants.operandsApart_of_substitute
      (Expression.isJoined_operandsApart.of_evaluate hevaluate)
  · cases h

/-! ## Reductions between operands -/

/-- Operands that meet before a reduction meet afterwards as well. -/
theorem Reduction.Step.operandsApart (h : Step constants s u) (hu : OperandsApart u) :
    OperandsApart s := by
  obtain ⟨before, after, hcall, hliteral⟩ := h
  rename_i call literal
  obtain ⟨c, letters, hname, hc, hletters⟩ := call.function.exists_name_eq_cons
  have hbefore : OperandsApart before := hu.of_infix ⟨[], literal ++ after, by simp⟩
  have hafter : OperandsApart after := hu.of_infix ⟨before ++ literal, [], by simp⟩
  have hclosing : OperandsApart (call.argument ++ ')' :: after) :=
    (operandsApart_of_literal hliteral).append_cons (by decide) hafter
  have hopening : OperandsApart (letters ++ '(' :: (call.argument ++ ')' :: after)) :=
    hletters.append_cons (by decide) hclosing
  simpa [Call.text, hname] using hbefore.append_cons hc hopening

theorem Reduction.Steps.operandsApart (h : Steps constants s u) (hu : OperandsApart u) :
    OperandsApart s := by
  induction h using Relation.ReflTransGen.head_induction_on with
  | refl => exact hu
  | head hstep _ ih => exact hstep.operandsApart ih

namespace Settings

/-- A text with an outcome is reduced to an expression. -/
theorem exists_reduced (h : settings.scientificOutcome s ≠ .malformed) :
    ∃ t x, Steps settings.constants s t ∧
      evaluate .scientific (settings.constants.substitute t) = .ok x := by
  rw [scientificOutcome, scientificValue] at h
  cases hreduce : reduceCalls settings.constants settings.maxReductions s with
  | error failure =>
    rw [hreduce] at h
    exact absurd rfl h
  | ok t =>
    rw [hreduce, ok_bind] at h
    cases hevaluate : evaluate .scientific (settings.constants.substitute t) with
    | error u =>
      rw [hevaluate] at h
      exact absurd rfl h
    | ok x => exact ⟨t, x, (Reduction.reduceCalls_eq_ok_iff.mp hreduce).1, hevaluate⟩

/-- In a text with an outcome no two operands meet. -/
theorem operandsApart (h : settings.scientificOutcome s ≠ .malformed) : OperandsApart s := by
  obtain ⟨t, x, hsteps, hevaluate⟩ := exists_reduced h
  exact hsteps.operandsApart (Constants.operandsApart_of_substitute
    (Expression.isJoined_operandsApart.of_evaluate hevaluate))

/-- Reductions of a text, of whichever calls, leave its outcome as it is. -/
theorem scientificOutcome_of_steps (h : Steps settings.constants s u) :
    settings.scientificOutcome s = settings.scientificOutcome u := by
  have hreduced (t : Text) : reduceCalls settings.constants settings.maxReductions s = .ok t ↔
      reduceCalls settings.constants settings.maxReductions u = .ok t := by
    rw [Reduction.reduceCalls_eq_ok_iff, Reduction.reduceCalls_eq_ok_iff]
    exact ⟨fun ⟨hsteps, hnormal⟩ => ⟨h.of_normal hsteps hnormal, hnormal⟩,
      fun ⟨hsteps, hnormal⟩ => ⟨h.trans hsteps, hnormal⟩⟩
  rw [scientificOutcome, scientificOutcome, scientificValue, scientificValue]
  cases hs : reduceCalls settings.constants settings.maxReductions s with
  | ok t => rw [(hreduced t).mp hs]
  | error failure =>
    cases hu : reduceCalls settings.constants settings.maxReductions u with
    | ok t =>
      rw [(hreduced t).mpr hu] at hs
      cases hs
    | error failure' => rfl

/-- In a text with an outcome every name with a bracket after it is that of an operand. -/
theorem exists_operand {f : Function} {a b : Text}
    (h : settings.scientificOutcome (a ++ f.name ++ '(' :: b) ≠ .malformed) :
    ∃ argument rest literal, b = argument ++ ')' :: rest ∧
      Operand settings.constants (f.name ++ '(' :: argument ++ [')']) literal := by
  obtain ⟨t, x, hsteps, hevaluate⟩ := exists_reduced h
  have hname : ¬f.name <:+: t := by
    rintro ⟨before, after, rfl⟩
    obtain ⟨c, hc, hforeign⟩ : ∃ c ∈ f.name, Expression.isOfExpression c = false := by
      cases f <;> exact ⟨_, List.mem_cons_self, by decide⟩
    have hmem : c ∈ settings.constants.substitute (before ++ f.name ++ after) := by
      rw [Constants.substitute_append, Constants.substitute_append, Call.substitute_name]
      simp [hc]
    rw [Expression.isJoined_isOfExpression.of_evaluate hevaluate c hmem] at hforeign
    cases hforeign
  obtain ⟨argument, rest, reduced, literal, rfl, hargument, hcall, hliteral⟩ :=
    hsteps.exists_operand hname
  exact ⟨argument, rest, literal, rfl, .call hargument hcall hliteral⟩

end Settings

/-! ## Where two operands meet -/

theorem Text.exists_ofFloat_eq_cons (x : Float) :
    ∃ c s, ofFloat x = c :: s ∧ (c = '-' ∨ isEdge c = true) := by
  unfold ofFloat
  split
  · exact ⟨'N', ['a', 'N'], rfl, .inr (by decide)⟩
  · rename_i negative _
    cases negative
    · exact ⟨'i', ['n', 'f'], rfl, .inr (by decide)⟩
    · exact ⟨'-', ['i', 'n', 'f'], rfl, .inl rfl⟩
  · rename_i negative _ _
    generalize Double.shortest (x.toBits.toNat % 2 ^ 63) = d
    cases negative
    · obtain ⟨digit, hdigit, -⟩ := d.isNumeral_text.digit
      obtain ⟨c, s, hs⟩ := List.exists_cons_of_ne_nil (List.ne_nil_of_mem hdigit)
      have hnumeric := d.isNumeral_text.numeric c (by simp [hs])
      exact ⟨c, s, by simp [hs], .inr (by simp [isEdge, hnumeric])⟩
    · exact ⟨'-', d.text, rfl, .inl rfl⟩

/-- What an operand becomes starts with a character of an operand, or with a minus sign. -/
theorem Reduction.Operand.exists_eq_cons {written literal : Text}
    (h : Operand constants written literal) :
    ∃ c rest, literal = c :: rest ∧ (c = '-' ∨ isEdge c = true) := by
  cases h with
  | @character c hc => exact ⟨c, [], rfl, .inr (by simp [isEdge, hc])⟩
  | call _ _ hliteral =>
    obtain ⟨x, rfl⟩ := Reduction.literal_eq_ofFloat hliteral
    exact Text.exists_ofFloat_eq_cons x

/-- What an operand becomes ends with a character of an operand. -/
theorem Reduction.Operand.exists_eq_concat {written literal : Text}
    (h : Operand constants written literal) :
    ∃ rest c, literal = rest ++ [c] ∧ isEdge c = true := by
  cases h with
  | @character c hc => exact ⟨[], c, rfl, by simp [isEdge, hc]⟩
  | call _ _ hliteral =>
    obtain ⟨x, rfl⟩ := Reduction.literal_eq_ofFloat hliteral
    obtain ⟨rest, c, hx, hc⟩ := Text.exists_ofFloat_eq_concat x
    refine ⟨rest, c, hx, ?_⟩
    rcases (by simpa [Text.endsNumber] using hc : (c.isDigit = true ∨ c = 'N') ∨ c = 'f') with
      (hdigit | rfl) | rfl
    · simp [isEdge, isNumeric, hdigit]
    · decide
    · decide

/-- Two operands next to each other become their values next to each other. -/
theorem Reduction.Operand.steps_adjacent {left right l r : Text} (hleft : Operand constants left l)
    (hright : Operand constants right r) (before after : Text) :
    Steps constants (before ++ left ++ right ++ after) (before ++ l ++ r ++ after) := by
  have hl := hleft.steps.append before (right ++ after)
  have hr := hright.steps.append (before ++ l) after
  simp only [List.append_assoc] at hl hr ⊢
  exact hl.trans hr

namespace Settings

/-- Values next to each other in a text with an outcome meet in digits or points, or the second one
begins with a minus sign. -/
theorem isNumeric_of_adjacent {before left right after l r : Text}
    (hleft : Operand constants left l) (hright : Operand constants right r)
    (h : settings.scientificOutcome (before ++ l ++ r ++ after) ≠ .malformed)
    (hminus : r.head? ≠ some '-') :
    l.getLast?.any isNumeric = true ∧ r.head?.any isNumeric = true := by
  obtain ⟨v, x, rfl, hx⟩ := hleft.exists_eq_concat
  obtain ⟨y, w, rfl, hy⟩ := hright.exists_eq_cons
  have hedge : ∀ c ∈ [x, y], isEdge c = true := by
    simpa [hx] using hy.resolve_left (by simpa using hminus)
  have hpiece : Expression.IsPiece [x, y] :=
    Settings.operandsApart h [x, y] ⟨before ++ v, w ++ after, by simp⟩ hedge
  cases hpiece with
  | number hnumeric => simp [hnumeric]

/-- **Next to another operand a call is read together with it or not at all.** If a call stands next
to a digit, a point or another call, the outcome is that of the text with the values written in
their places. The text is malformed unless the second value begins with a minus sign, which is then
an operator, or the two values meet in digits or points. It is malformed as well if such digits and
points, which are read as one number, have two points. In a text with an outcome every name with a
bracket after it is that of such a call. -/
theorem scientificOutcome_of_adjacent (settings : Settings) (s : Text) :
    (∀ before left right after l r, s = before ++ left ++ right ++ after →
      Operand settings.constants left l → Operand settings.constants right r →
      settings.scientificOutcome s = settings.scientificOutcome (before ++ l ++ r ++ after) ∧
      (r.head? ≠ some '-' →
        ¬(l.getLast?.any isNumeric = true ∧ r.head?.any isNumeric = true) →
        settings.scientificOutcome s = .malformed) ∧
      ∀ run, run <:+: before ++ l ++ r ++ after → (∀ c ∈ run, isNumeric c = true) →
        1 < run.count '.' → settings.scientificOutcome s = .malformed) ∧
    ∀ (f : Function) (a b : Text), s = a ++ f.name ++ '(' :: b →
      settings.scientificOutcome s ≠ .malformed → ∃ argument rest literal,
        b = argument ++ ')' :: rest ∧
        Operand settings.constants (f.name ++ '(' :: argument ++ [')']) literal := by
  constructor
  · rintro before left right after l r rfl hleft hright
    have houtcome := scientificOutcome_of_steps (hleft.steps_adjacent hright before after)
    rw [houtcome]
    refine ⟨rfl, fun hminus hborder => ?_, fun run hrun hnumeric hpoints => ?_⟩
    · by_contra hne
      exact hborder (isNumeric_of_adjacent hleft hright hne hminus)
    · by_contra hne
      have hpoint := (Settings.operandsApart hne).hasSinglePoints run hrun hnumeric
      omega
  · rintro f a b rfl hne
    exact exists_operand hne

/-- Inside of another call, a digit before the root of a negative number makes the text malformed,
and a digit before the root of sixteen becomes the first of two digits. -/
theorem scientificOutcome_of_adjacent_roots :
    scientificOutcome {} "sqrt(3sqrt(0-1))".toList = .malformed ∧
    scientificOutcome {} "1+2sqrt(16)".toList = scientificOutcome {} "1+24".toList ∧
    ∃ argument rest literal, "16)".toList = argument ++ ')' :: rest ∧
      Operand Constants.standard (Function.sqrt.name ++ '(' :: argument ++ [')']) literal := by
  have hdigit {c : Char} (hc : isNumeric c = true) : Operand Constants.standard [c] [c] :=
    .character hc
  have hundefined : Operand Constants.standard "sqrt(0-1)".toList "NaN".toList :=
    .of_innermost ⟨.sqrt, "0-1".toList⟩ (by decide) (by decide +kernel)
  have hroot : Operand Constants.standard "sqrt(16)".toList "4".toList :=
    .of_innermost ⟨.sqrt, "16".toList⟩ (by decide) (by decide +kernel)
  obtain ⟨-, hmeets, -⟩ := (scientificOutcome_of_adjacent {} "sqrt(3sqrt(0-1))".toList).1
    "sqrt(".toList _ _ ")".toList _ _ rfl (hdigit (c := '3') (by decide)) hundefined
  obtain ⟨hjoined, -, -⟩ := (scientificOutcome_of_adjacent {} "1+2sqrt(16)".toList).1
    "1+".toList _ _ [] _ _ rfl (hdigit (c := '2') (by decide)) hroot
  have hdisplay : scientificDisplay {} "1+2sqrt(16)".toList = "25".toList := by decide +kernel
  have hne : scientificOutcome {} "1+2sqrt(16)".toList ≠ .malformed := by
    rw [Ne, ← (scientificDisplay_tells {} _).malformed, hdisplay]
    decide
  exact ⟨hmeets (by decide) (by decide), hjoined,
    (scientificOutcome_of_adjacent {} _).2 .sqrt "1+2".toList "16)".toList rfl hne⟩

/-- A digit before a call becomes a digit of its value. Before the root of a negative zero, which is
written with a minus sign, it becomes the left operand of a subtraction. -/
theorem scientificOutcome_joins_value :
    (Operand Constants.standard ['2'] ['2'] ∧
      Operand Constants.standard "sqrt(16)".toList "4".toList ∧
      scientificDisplay {} "2sqrt(16)".toList = "24".toList ∧
      scientificOutcome {} "2sqrt(16)".toList ≠ .malformed) ∧
    Operand Constants.standard "sqrt(-0)".toList "-0".toList ∧
    scientificDisplay {} "2sqrt(-0)".toList = "2".toList ∧
    scientificOutcome {} "2sqrt(-0)".toList ≠ .malformed := by
  have hroot : scientificDisplay {} "2sqrt(16)".toList = "24".toList := by decide +kernel
  have hzero : scientificDisplay {} "2sqrt(-0)".toList = "2".toList := by decide +kernel
  refine ⟨⟨.character (by decide), ?_, hroot, ?_⟩, ?_, hzero, ?_⟩
  · exact .of_innermost ⟨.sqrt, "16".toList⟩ (by decide) (by decide +kernel)
  · rw [Ne, ← (scientificDisplay_tells {} _).malformed, hroot]
    decide
  · exact .of_innermost ⟨.sqrt, "-0".toList⟩ (by decide) (by decide +kernel)
  · rw [Ne, ← (scientificDisplay_tells {} _).malformed, hzero]
    decide

end Settings

end Calculator
