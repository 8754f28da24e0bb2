import Calculator.Proofs.Scientific.Confluence
import Mathlib.Data.List.Infix

/-!
# Reductions on both sides of a separator

A call does not reach over an operator or a space between two texts, unless the first of them leaves
a bracket open. So the reductions of first calls take the calls of the first text, as they would if
it stood alone, and then those of the second one: what comes of both together is what comes of each,
and of two failures the first is met.
-/

namespace Calculator

variable {constants : Constants} {a b s t u : Text} {c : Char} {n m : ℕ}

/-- The operators and the space. -/
def separators : Text := ['+', '-', '*', '/', '^', ' ']

/-- Every opening bracket of a text is closed after it. -/
def ClosesBrackets (s : Text) : Prop := ∀ t, t <:+ s → t.count '(' ≤ t.count ')'

instance decidableClosesBrackets (s : Text) : Decidable (ClosesBrackets s) :=
  decidable_of_iff (∀ t ∈ s.tails, t.count '(' ≤ t.count ')') <| by
    simp only [ClosesBrackets, List.mem_tails]

namespace Call

/-- A separator is no bracket and in no name. -/
theorem separator_apart (hc : c ∈ separators) :
    isBracket c = false ∧ ∀ f : Function, c ∉ f.name := by
  have hbracket : separators.all (!isBracket ·) = true := by decide
  refine ⟨by simpa using List.all_eq_true.mp hbracket c hc, fun f hmem => ?_⟩
  have hname : f.name.all (!separators.contains ·) = true := by cases f <;> decide
  have hnot := List.all_eq_true.mp hname c hmem
  simp [hc] at hnot

/-- The part of a call before a separator in it leaves the bracket of the call open. -/
theorem Innermost.count_before_separator {call : Call} (hcall : call.Innermost)
    (hc : c ∈ separators) (h : call.text = s ++ c :: t) : s.count '(' = 1 ∧ s.count ')' = 0 := by
  obtain ⟨hbracket, hname⟩ := separator_apart hc
  have hne : ∀ {d : Char}, isBracket d = true → c ≠ d := by
    rintro d hd rfl
    simp [hbracket] at hd
  have hopening : call.function.name ++ '(' :: (call.argument ++ [')']) = s ++ c :: t := by
    simpa [text] using h
  obtain ⟨start, rfl, hargument⟩ :=
    prefix_of_not_mem (hname call.function) (hne (d := '(') rfl) hopening
  -- the argument goes on behind the separator, since only its last bracket follows it
  obtain ⟨rest, hrest⟩ : ∃ rest, call.argument = start ++ rest := by
    rcases List.append_eq_append_iff.mp hargument with ⟨between, -, hlast⟩ | ⟨rest, hrest, -⟩
    · cases between with
      | nil => exact absurd (List.cons.inj hlast).1.symm (hne (d := ')') rfl)
      | cons d between => simp at hlast
    · exact ⟨rest, hrest⟩
  have hcount : ∀ {d : Char}, isBracket d = true →
      call.function.name.count d = 0 ∧ start.count d = 0 := by
    intro d hd
    have hmem := hcall.not_mem_argument hd
    rw [hrest, List.mem_append, not_or] at hmem
    exact ⟨List.count_eq_zero.mpr (call.function.not_mem_name hd), List.count_eq_zero.mpr hmem.1⟩
  simp [hcount (d := '(') rfl, hcount (d := ')') rfl]

/-- A call in two texts with a separator between them is a call of one of them. -/
theorem Innermost.before_or_after {call : Call} (hcall : call.Innermost) (hc : c ∈ separators)
    (ha : ClosesBrackets a) {before after : Text}
    (h : before ++ call.text ++ after = a ++ c :: b) :
    (∃ between, a = before ++ call.text ++ between) ∨
      ∃ between, before = a ++ c :: between ∧ b = between ++ call.text ++ after := by
  rcases List.append_eq_append_iff.mp h with ⟨between, ha', -⟩ | ⟨m, hbefore, hb⟩
  · exact .inl ⟨between, ha'⟩
  rcases List.append_eq_append_iff.mp hbefore with ⟨s, rfl, hs⟩ | ⟨s, rfl, rfl⟩
  · cases m with
    | nil => exact .inl ⟨[], by simp [hs]⟩
    | cons d t =>
      -- the separator would be in the call, whose bracket the first text leaves open
      cases hb
      obtain ⟨hopening, hclosing⟩ := hcall.count_before_separator hc hs
      have hclosed := ha s (List.suffix_append ..)
      omega
  · cases s with
    | nil =>
      -- the call would start with the separator
      cases htext : call.text with
      | nil => simp [text] at htext
      | cons d t =>
        rw [htext] at hb
        cases hb
        exact absurd (hcall.count_before_separator (s := []) hc htext).1 (by simp)
    | cons d between =>
      cases hb
      exact .inr ⟨between, rfl, rfl⟩

theorem not_occurs_append_cons (hc : c ∈ separators) (ha : ClosesBrackets a)
    (hleft : ¬Occurs a) (hright : ¬Occurs b) : ¬Occurs (a ++ c :: b) := by
  rintro ⟨before, call, after, hcall, hs⟩
  rcases hcall.before_or_after hc ha hs.symm with ⟨between, rfl⟩ | ⟨between, -, rfl⟩
  · exact hleft ⟨before, call, between, hcall, rfl⟩
  · exact hright ⟨between, call, after, hcall, rfl⟩

/-- The first call of a text is the first one with any text after it. -/
theorem first?_append {before after : Text} {call : Call}
    (h : first? s = some (before, call, after)) (t : Text) :
    first? (s ++ t) = some (before, call, after ++ t) := by
  obtain ⟨hcall, rfl, hbefore⟩ := first?_eq_some_iff.mp h
  exact first?_eq_some_iff.mpr ⟨hcall, List.append_assoc .., hbefore⟩

/-- After a text without calls and a separator, the first call is that of the text after them. -/
theorem first?_append_cons (hc : c ∈ separators) (ha : ClosesBrackets a) (hnone : ¬Occurs a)
    (b : Text) : first? (a ++ c :: b) =
      (first? b).map fun (before, call, after) => (a ++ c :: before, call, after) := by
  cases hfirst : first? b with
  | none =>
    rw [Option.map_none, first?_eq_none_iff]
    exact not_occurs_append_cons hc ha hnone (first?_eq_none_iff.mp hfirst)
  | some found =>
    obtain ⟨before, call, after⟩ := found
    obtain ⟨hcall, rfl, hbefore⟩ := first?_eq_some_iff.mp hfirst
    rw [Option.map_some, first?_eq_some_iff]
    exact ⟨hcall, by simp, not_occurs_append_cons hc ha hnone hbefore⟩

end Call

namespace Reduction

/-- A reduction takes an opening bracket and its closing one away. -/
theorem Step.closesBrackets (h : Step constants s u) (hs : ClosesBrackets s) :
    ClosesBrackets u := by
  obtain ⟨before, after, hcall, hliteral⟩ := h
  rename_i call literal
  have hafter : ClosesBrackets after := fun t ht => hs t (ht.trans (List.suffix_append ..))
  intro t ht
  rw [List.append_assoc] at ht
  rcases List.suffix_or_suffix_of_suffix ht (List.suffix_append before _) with hin | hout
  · -- the text of the value adds no brackets to what follows it
    rcases List.suffix_or_suffix_of_suffix hin (List.suffix_append literal after) with h | h
    · exact hafter t h
    · calc t.count '(' ≤ (literal ++ after).count '(' := hin.sublist.count_le _
        _ = after.count '(' := by
          rw [List.count_append, count_bracket_literal hliteral rfl, Nat.zero_add]
        _ ≤ after.count ')' := hafter after List.suffix_rfl
        _ ≤ t.count ')' := h.sublist.count_le _
  · obtain ⟨m, rfl⟩ := hout
    obtain ⟨start, hstart⟩ := ht
    obtain rfl : start ++ m = before := by
      rwa [← List.append_assoc, List.append_cancel_right_eq] at hstart
    have hclosed := hs (m ++ call.text ++ after) ⟨start, by simp⟩
    have hopening := count_bracket_reduced m after hcall hliteral (c := '(') rfl
    have hclosing := count_bracket_reduced m after hcall hliteral (c := ')') rfl
    rw [← List.append_assoc]
    omega

theorem Steps.closesBrackets (h : Steps constants s u) (hs : ClosesBrackets s) :
    ClosesBrackets u := by
  induction h with
  | refl => exact hs
  | tail _ hstep ih => exact hstep.closesBrackets ih

theorem FirstSteps.trans (h : FirstSteps constants s n t) (h' : FirstSteps constants t m u) :
    FirstSteps constants s (n + m) u := by
  induction h with
  | nil => rwa [Nat.zero_add]
  | cons hfirst hliteral _ ih =>
    rw [Nat.add_right_comm]
    exact .cons hfirst hliteral (ih h')

/-- Reductions of first calls go on in the same way with any text after them. -/
theorem FirstSteps.append (h : FirstSteps constants s n t) (u : Text) :
    FirstSteps constants (s ++ u) n (t ++ u) := by
  induction h with
  | nil s => exact .nil _
  | cons hfirst hliteral _ ih =>
    refine .cons (Call.first?_append hfirst u) hliteral ?_
    rwa [← List.append_assoc]

theorem FirstSteps.append_cons (h : FirstSteps constants s n t) (hc : c ∈ separators)
    (ha : ClosesBrackets a) (hnone : ¬Call.Occurs a) :
    FirstSteps constants (a ++ c :: s) n (a ++ c :: t) := by
  induction h with
  | nil s => exact .nil _
  | @cons s before after literal t call n hfirst hliteral _ ih =>
    have hfirst' := Call.first?_append_cons hc ha hnone s
    rw [hfirst] at hfirst'
    refine .cons hfirst' hliteral ?_
    simpa using ih

/-- **Two texts with an operator or a space between them are reduced each for itself.** The
reduction succeeds exactly if that of each text does, and the results stand on the two sides of the
separator. If it fails, the failure is that of the first text, or that of the second one if the
first is reduced. Every budget will do. All that is asked is that the first text closes the brackets
it opens, as it does if its brackets match; the second one may be any text. -/
theorem reduceCalls_append_cons (constants : Constants) (maxReductions : ℕ)
    (hc : c ∈ separators) (ha : ClosesBrackets a) (b : Text) :
    reduceCalls constants maxReductions (a ++ c :: b) = do
      let left ← reduceCalls constants maxReductions a
      let right ← reduceCalls constants maxReductions b
      return left ++ c :: right := by
  obtain ⟨n, t, result, hsteps, hends⟩ := exists_ends constants a
  rw [hsteps.reduceCalls_of_ends hends]
  cases hends with
  | fails hfirst hliteral =>
    exact (hsteps.append (c :: b)).reduceCalls_of_ends
      (.fails (Call.first?_append hfirst _) hliteral) _
  | reduced hfirst =>
    have hclosed := hsteps.steps.closesBrackets ha
    have hnone := Call.first?_eq_none_iff.mp hfirst
    obtain ⟨m, u, result, hsteps', hends'⟩ := exists_ends constants b
    rw [hsteps'.reduceCalls_of_ends hends']
    have hboth := (hsteps.append (c :: b)).trans (hsteps'.append_cons hc hclosed hnone)
    have hfirst' := Call.first?_append_cons hc hclosed hnone u
    cases hends' with
    | fails hfirst'' hliteral =>
      rw [hfirst''] at hfirst'
      exact hboth.reduceCalls_of_ends (.fails hfirst' hliteral) _
    | reduced hfirst'' =>
      rw [hfirst''] at hfirst'
      exact hboth.reduceCalls_of_ends (.reduced hfirst') _

/-- On the left of a minus sign a root of a root is reduced as it is alone, and a root that fails on
the right fails with its own failure. -/
theorem reduceCalls_append_cons_roots :
    reduceCalls Constants.standard 0 "2*sqrt(sqrt(16))-sqrt(9)".toList = .ok "2*2-3".toList ∧
      reduceCalls Constants.standard 0 "2*sqrt(sqrt(16))-sqrt(3*)".toList =
        .error (.argument Function.sqrt.name (Failure.ofUnexpected ⟨2, .ending⟩).message) := by
  obtain ⟨hleft, hright, hfails⟩ :
      reduceCalls Constants.standard 0 "2*sqrt(sqrt(16))".toList = .ok "2*2".toList ∧
      reduceCalls Constants.standard 0 "sqrt(9)".toList = .ok "3".toList ∧
      reduceCalls Constants.standard 0 "sqrt(3*)".toList =
        .error (.argument Function.sqrt.name (Failure.ofUnexpected ⟨2, .ending⟩).message) := by
    decide +kernel
  have hclosed : ClosesBrackets "2*sqrt(sqrt(16))".toList := by decide
  have hsplit := reduceCalls_append_cons Constants.standard 0 (c := '-') (by decide) hclosed
  rw [hleft] at hsplit
  have hroots := hsplit "sqrt(9)".toList
  have hfailure := hsplit "sqrt(3*)".toList
  rw [hright] at hroots
  rw [hfails] at hfailure
  exact ⟨hroots, hfailure⟩

end Reduction

end Calculator
