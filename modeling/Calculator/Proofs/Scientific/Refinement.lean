import Calculator.Calculation
import Calculator.Proofs.Expression.Evaluation
import Calculator.Proofs.Expression.Literal
import Calculator.Proofs.Scientific.Confluence
import Calculator.Proofs.Scientific.Formula
import Calculator.Proofs.Scientific.Substitution

/-!
# Reducing the text of a formula computes its value

The calculator works on text: it writes the values of calls and constants in digits and reads the
digits again. This file follows a formula through this. Whatever the order of reductions, its text
becomes that of an expression with the same value, since the text of a double is a factor with the
double as its value, and neither names nor symbols nor brackets come with it.
-/

namespace Calculator

open Expression (Level spaces forall_mem_spaces)
open Reduction (Step Steps)

/-! ## Characters -/

/-- The letters that names start with. -/
def Function.initials : List Char := ['s', 'c', 't', 'l']

/-- A text without the letters that names start with has no call. -/
theorem not_occurs_of_initials {t : Text} (ht : ∀ c ∈ t, c ∉ Function.initials) :
    ¬Call.Occurs t := by
  rintro ⟨before, call, after, _, rfl⟩
  obtain ⟨c, hname, hinitial⟩ : ∃ c ∈ call.function.name, c ∈ Function.initials := by
    cases call.function <;> simp [Function.name, Function.initials]
  refine ht c ?_ hinitial
  simp [Call.text, hname]

/-- The characters of doubles are neither brackets nor letters that names start with. -/
theorem initial_or_bracket_not_isOfNumber {c : Char} (hc : Text.isOfNumber c = true) :
    c ∉ Function.initials ∧ isBracket c = false := by
  constructor
  · intro hmem
    have hinitials : Function.initials.all (!Text.isOfNumber ·) = true := by decide
    have hnot := List.all_eq_true.mp hinitials c hmem
    simp [hc] at hnot
  · cases hbracket : isBracket c with
    | false => rfl
    | true =>
      rw [Reduction.isBracket_not_isOfNumber hbracket] at hc
      cases hc

namespace Formula

variable {constants : Constants} {level : Level} {s t : Text} {formula : Formula} {e : Expression}

/-- The text of a formula reduces to a text without calls. With the constants written in it, that is
the text of an expression with the value of the formula. -/
structure Refines (constants : Constants) (level : Level) (s : Text) (formula : Formula)
    (t : Text) (e : Expression) : Prop where
  steps : Steps constants s t
  initials : ∀ c ∈ t, c ∉ Function.initials
  brackets : formula.GroupFree → ∀ c ∈ t, isBracket c = false
  derives : Expression.Derives .scientific false level (constants.substitute t) e
  value_eq : e.value = formula.value constants
  nesting_le : e.nesting ≤ formula.nesting + 1

/-- What has become a token without brackets, such as a number or the symbol of a constant. -/
theorem Refines.token {a : Text} (n : Nat) (hsteps : Steps constants s (spaces n ++ a))
    (ha : ∀ c ∈ a, c ∉ Function.initials ∧ isBracket c = false)
    (hderives : Expression.Derives .scientific false .factor
      (spaces n ++ constants.substitute a) e)
    (hvalue : e.value = formula.value constants) (hnest : e.nesting ≤ 1) :
    Refines constants .factor s formula (spaces n ++ a) e where
  steps := hsteps
  initials := by
    rw [List.forall_mem_append]
    exact ⟨forall_mem_spaces (by decide) n, fun c hc => (ha c hc).1⟩
  brackets := by
    intro _
    rw [List.forall_mem_append]
    exact ⟨forall_mem_spaces (by decide) n, fun c hc => (ha c hc).2⟩
  derives := by
    rwa [constants.substitute_append, constants.substitute_spaces]
  value_eq := hvalue
  nesting_le := Nat.le_trans hnest (Nat.le_add_left 1 _)

/-- An operator between two texts that are followed on their own. -/
theorem Refines.binary {level₁ level₂ : Level} {s₁ s₂ t₁ t₂ : Text} {l r : Formula}
    {e₁ e₂ : Expression} {op : Operator} (n : Nat) (h₁ : Refines constants level₁ s₁ l t₁ e₁)
    (h₂ : Refines constants level₂ s₂ r t₂ e₂)
    (hderives : Expression.Derives .scientific false level
      (constants.substitute t₁ ++ spaces n ++ op.sign :: constants.substitute t₂)
      (.binary op e₁ e₂)) :
    Refines constants level (s₁ ++ spaces n ++ op.sign :: s₂) (.binary op l r)
      (t₁ ++ spaces n ++ op.sign :: t₂) (.binary op e₁ e₂) where
  steps := by
    have hleft := h₁.steps.append [] (spaces n ++ op.sign :: s₂)
    have hright := h₂.steps.append (t₁ ++ spaces n ++ [op.sign]) []
    simp only [List.nil_append, List.append_nil, List.append_assoc, List.singleton_append]
      at hleft hright ⊢
    exact hleft.trans hright
  initials := by
    have hsign : op.sign ∉ Function.initials := by
      cases op <;> decide
    rw [List.forall_mem_append, List.forall_mem_append, List.forall_mem_cons]
    exact ⟨⟨h₁.initials, forall_mem_spaces (by decide) n⟩, hsign, h₂.initials⟩
  brackets := by
    intro hfree
    have hsign : isBracket op.sign = false := by
      cases op <;> decide
    rw [List.forall_mem_append, List.forall_mem_append, List.forall_mem_cons]
    exact ⟨⟨h₁.brackets hfree.1, forall_mem_spaces (by decide) n⟩, hsign, h₂.brackets hfree.2⟩
  derives := by
    have hsign : op.sign ≠ 'π' ∧ op.sign ≠ 'e' := by
      cases op <;> decide
    rwa [constants.substitute_append, constants.substitute_append, constants.substitute_spaces,
      constants.substitute_cons hsign.1 hsign.2]
  value_eq := by
    rw [Expression.value, h₁.value_eq, h₂.value_eq, value]
  nesting_le := by
    have hl := h₁.nesting_le
    have hr := h₂.nesting_le
    rw [Expression.nesting, nesting]
    omega

/-- A sign before a text that is followed on its own. -/
theorem Refines.sign {c : Char} {formula' : Formula} {e' : Expression} (n : Nat)
    (hc : c = '+' ∨ c = '-') (h : Refines constants .factor s formula t e)
    (hderives : Expression.Derives .scientific false .factor
      (spaces n ++ c :: constants.substitute t) e')
    (hfree : formula'.GroupFree → formula.GroupFree)
    (hvalue : e'.value = formula'.value constants)
    (hnest : e'.nesting = e.nesting + 1 ∧ formula'.nesting = formula.nesting + 1) :
    Refines constants .factor (spaces n ++ c :: s) formula' (spaces n ++ c :: t) e' where
  steps := by
    have hsteps := h.steps.append (spaces n ++ [c]) []
    simpa only [List.append_nil, List.append_assoc, List.singleton_append] using hsteps
  initials := by
    have hsign : c ∉ Function.initials := by
      rcases hc with rfl | rfl <;> decide
    rw [List.forall_mem_append, List.forall_mem_cons]
    exact ⟨forall_mem_spaces (by decide) n, hsign, h.initials⟩
  brackets := by
    intro hgroup
    have hsign : isBracket c = false := by
      rcases hc with rfl | rfl <;> decide
    rw [List.forall_mem_append, List.forall_mem_cons]
    exact ⟨forall_mem_spaces (by decide) n, hsign, h.brackets (hfree hgroup)⟩
  derives := by
    have hplain : c ≠ 'π' ∧ c ≠ 'e' := by
      rcases hc with rfl | rfl <;> decide
    rwa [constants.substitute_append, constants.substitute_spaces,
      constants.substitute_cons hplain.1 hplain.2]
  value_eq := hvalue
  nesting_le := by
    have hle := h.nesting_le
    omega

/-- Brackets around a text that is followed on its own. -/
theorem Refines.group (n m : Nat) (h : Refines constants .sum s formula t e) :
    Refines constants .factor (spaces n ++ '(' :: s ++ spaces m ++ [')']) (.group formula)
      (spaces n ++ '(' :: t ++ spaces m ++ [')']) (.group e) where
  steps := by
    have hsteps := h.steps.append (spaces n ++ ['(']) (spaces m ++ [')'])
    simpa only [List.append_assoc, List.cons_append, List.nil_append] using hsteps
  initials := by
    rw [List.forall_mem_append, List.forall_mem_append, List.forall_mem_append,
      List.forall_mem_cons, List.forall_mem_singleton]
    exact ⟨⟨⟨forall_mem_spaces (by decide) n, by decide, h.initials⟩,
      forall_mem_spaces (by decide) m⟩, by decide⟩
  brackets := fun hfree => hfree.elim
  derives := by
    have hclosing : constants.substitute [')'] = [')'] :=
      constants.substitute_eq_self (by decide) (by decide)
    rw [constants.substitute_append, constants.substitute_append, constants.substitute_append,
      constants.substitute_cons (by decide) (by decide), hclosing, constants.substitute_spaces,
      constants.substitute_spaces]
    exact .group n m h.derives
  value_eq := h.value_eq
  nesting_le := Nat.succ_le_succ h.nesting_le

/-- What has become of a formula, with spaces after it or not, has the value of the formula. -/
theorem Refines.evaluate_eq (n : Nat) (h : Refines constants .sum s formula t e)
    (hnest : formula.nesting + 1 < maxNesting) :
    evaluate .scientific (constants.substitute (t ++ spaces n)) =
      .ok (formula.value constants) := by
  have haccepts : Expression.Accepts .scientific (constants.substitute (t ++ spaces n)) e := by
    refine ⟨constants.substitute t, n, ?_, h.derives.atEnd⟩
    rw [constants.substitute_append, constants.substitute_spaces]
  have hle := h.nesting_le
  rw [Expression.evaluate_of_accepts haccepts (by omega), h.value_eq]

/-- A call whose argument has become a text without calls and brackets can be reduced, to the text
of its value. -/
theorem Refines.step_call (n m : Nat) (f : Function) (hfree : formula.GroupFree)
    (hnest : formula.nesting + 1 < maxNesting) (h : Refines constants .sum s formula t e) :
    Step constants (spaces n ++ f.name ++ '(' :: t ++ spaces m ++ [')'])
      (spaces n ++ Text.ofFloat ((Formula.call f formula).value constants)) := by
  have hne : t ≠ [] := by
    rintro rfl
    exact h.derives.ne_nil rfl
  have hinnermost : (Call.mk f (t ++ spaces m)).Innermost := by
    refine ⟨by simp [hne], ?_⟩
    rw [List.forall_mem_append]
    exact ⟨h.brackets hfree, forall_mem_spaces (by decide) m⟩
  have hliteral : (Call.mk f (t ++ spaces m)).literal constants =
      .ok (Text.ofFloat ((Formula.call f formula).value constants)) := by
    rw [Call.literal, h.evaluate_eq m hnest]
    rfl
  exact .of_eq (spaces n) [] hinnermost hliteral (by simp [Call.text]) (by simp)

/-- A call whose argument is followed on its own. -/
theorem Refines.call (n m : Nat) (f : Function) (hfree : formula.GroupFree)
    (hnest : formula.nesting + 1 < maxNesting) (h : Refines constants .sum s formula t e) :
    ∃ t' e', Refines constants .factor (spaces n ++ f.name ++ '(' :: s ++ spaces m ++ [')'])
      (.call f formula) t' e' := by
  have hargument : Steps constants (spaces n ++ f.name ++ '(' :: s ++ spaces m ++ [')'])
      (spaces n ++ f.name ++ '(' :: t ++ spaces m ++ [')']) := by
    have hsteps := h.steps.append (spaces n ++ f.name ++ ['(']) (spaces m ++ [')'])
    simpa only [List.append_assoc, List.cons_append, List.nil_append] using hsteps
  have hsteps := hargument.tail (h.step_call n m f hfree hnest)
  obtain ⟨e', hderives, hvalue, hdepth⟩ := Expression.exists_derives_ofFloat
    ((Formula.call f formula).value constants) false n
  rw [← constants.substitute_ofFloat] at hderives
  exact ⟨_, e', .token n hsteps
    (fun c hc => initial_or_bracket_not_isOfNumber (Text.isOfNumber_of_mem_ofFloat hc))
    hderives hvalue hdepth⟩

/-- The symbol of a constant stands for the text of its value. -/
theorem Refines.constant (n : Nat) {symbol : Char} {x : Float}
    (hsymbol : symbol = 'π' ∨ symbol = 'e')
    (hsubstitute : constants.substitute [symbol] = Text.ofFloat x)
    (hvalue : formula.value constants = x) :
    ∃ e, Refines constants .factor (spaces n ++ [symbol]) formula (spaces n ++ [symbol]) e := by
  obtain ⟨e, hderives, hx, hdepth⟩ := Expression.exists_derives_ofFloat x false n
  rw [← hsubstitute] at hderives
  refine ⟨e, .token n .refl ?_ hderives (hx.trans hvalue.symm) hdepth⟩
  rw [List.forall_mem_singleton]
  rcases hsymbol with rfl | rfl <;> decide

/-- The text of a number or a word is left as it is. -/
theorem Refines.written (n : Nat) (hs : s.all Text.isOfNumber = true)
    (hderives : Expression.Derives .scientific false .factor (spaces n ++ s) e)
    (hvalue : e.value = formula.value constants) (hnest : e.nesting = 0) :
    Refines constants .factor (spaces n ++ s) formula (spaces n ++ s) e := by
  rw [List.all_eq_true] at hs
  rw [← constants.substitute_of_isOfNumber hs] at hderives
  exact .token n .refl (fun c hc => initial_or_bracket_not_isOfNumber (hs c hc)) hderives hvalue
    (by omega)

/-- Every formula can be followed through the reduction of its text. -/
theorem Derives.refines (h : Derives level s formula) (hnest : formula.nesting + 1 < maxNesting) :
    ∃ t e, Refines constants level s formula t e := by
  induction h with
  | ofTerm _ ih =>
    obtain ⟨t, e, h⟩ := ih hnest
    exact ⟨t, e, { h with derives := .ofTerm h.derives }⟩
  | ofFactor _ ih =>
    obtain ⟨t, e, h⟩ := ih hnest
    exact ⟨t, e, { h with derives := .ofFactor h.derives }⟩
  | addition n hop _ _ ihl ihr =>
    rw [nesting] at hnest
    obtain ⟨t₁, e₁, h₁⟩ := ihl (by omega)
    obtain ⟨t₂, e₂, h₂⟩ := ihr (by omega)
    exact ⟨_, _, h₁.binary n h₂ (.addition n hop h₁.derives h₂.derives)⟩
  | product n hop _ _ ihl ihr =>
    rw [nesting] at hnest
    obtain ⟨t₁, e₁, h₁⟩ := ihl (by omega)
    obtain ⟨t₂, e₂, h₂⟩ := ihr (by omega)
    exact ⟨_, _, h₁.binary n h₂ (.product n hop h₁.derives h₂.derives)⟩
  | plus n _ ih =>
    rw [nesting] at hnest
    obtain ⟨t, e, h⟩ := ih (by omega)
    exact ⟨_, _, h.sign n (.inl rfl) (.plus n h.derives) id h.value_eq ⟨rfl, rfl⟩⟩
  | minus n _ ih =>
    rw [nesting] at hnest
    obtain ⟨t, e, h⟩ := ih (by omega)
    exact ⟨_, _, h.sign n (.inr rfl) (.minus n h.derives) id (congrArg Neg.neg h.value_eq)
      ⟨rfl, rfl⟩⟩
  | group n m _ ih =>
    rw [nesting] at hnest
    obtain ⟨t, e, h⟩ := ih (by omega)
    exact ⟨_, _, h.group n m⟩
  | call n m f hfree _ ih =>
    rw [nesting] at hnest
    obtain ⟨t, e, h⟩ := ih (by omega)
    exact h.call n m f hfree (by omega)
  | number n hnumeral =>
    refine ⟨_, _, .written n ?_ (.number n hnumeral) rfl rfl⟩
    rw [List.all_eq_true]
    intro c hc
    simp [Text.isOfNumber, hnumeral.numeric c hc]
  | undefined n => exact ⟨_, _, .written n (by decide) (.undefined n rfl) rfl rfl⟩
  | infinity n => exact ⟨_, _, .written n (by decide) (.infinity n rfl) rfl rfl⟩
  | pi n => exact ⟨_, Refines.constant n (.inl rfl) constants.substitute_pi rfl⟩
  | e n => exact ⟨_, Refines.constant n (.inr rfl) constants.substitute_e rfl⟩

end Formula

/-- **The scientific calculation computes the value of the formula.** Whatever the constants and the
budget of reductions are, a text of the grammar in which at most 254 signs and brackets stand around
one number has the outcome of its formula. -/
theorem Settings.scientificOutcome_of_derives (settings : Settings) {s : Text} {formula : Formula}
    (n : Nat) (h : Formula.Derives .sum s formula) (hnest : formula.nesting ≤ 254) :
    settings.scientificOutcome (s ++ spaces n) =
      Outcome.ofFloat (formula.value settings.constants) := by
  have hdepth : formula.nesting + 1 < maxNesting := by
    rw [maxNesting]
    omega
  obtain ⟨t, e, hrefines⟩ : ∃ t e, Formula.Refines settings.constants .sum s formula t e :=
    h.refines hdepth
  have hreduce : reduceCalls settings.constants settings.maxReductions (s ++ spaces n) =
      .ok (t ++ spaces n) := by
    rw [Reduction.reduceCalls_eq_ok_iff]
    refine ⟨hrefines.steps.append [] (spaces n), not_occurs_of_initials ?_⟩
    rw [List.forall_mem_append]
    exact ⟨hrefines.initials, forall_mem_spaces (by decide) n⟩
  have hvalue : settings.scientificValue (s ++ spaces n) =
      .ok (formula.value settings.constants) := by
    rw [Settings.scientificValue, hreduce]
    change (evaluate .scientific _).mapError _ = _
    rw [hrefines.evaluate_eq n hdepth]
    rfl
  rw [Settings.scientificOutcome, hvalue]
  rfl

/-- A call inside of another one, with spaces around the outer one's closing bracket: the difference
of one and the fourth root of sixteen. -/
theorem Settings.scientificOutcome_of_roots :
    Formula.Derives .sum "1-sqrt(sqrt(16) )".toList
      (.binary .subtract (.number ⟨1, 0⟩) (.call .sqrt (.call .sqrt (.number ⟨16, 0⟩)))) ∧
    Settings.scientificOutcome {} "1-sqrt(sqrt(16) ) ".toList = Outcome.ofFloat (-1) := by
  have hone : Formula.Derives .factor ['1'] (.number ⟨1, 0⟩) :=
    .number 0 (.of_digits (by simp) (by simp))
  have hsixteen : Formula.Derives .factor ['1', '6'] (.number ⟨16, 0⟩) :=
    .number 0 (.of_digits (by simp) (by simp))
  have hroot : Formula.Derives .factor "sqrt(16)".toList (.call .sqrt (.number ⟨16, 0⟩)) :=
    .call 0 0 .sqrt (by simp [Formula.GroupFree]) (.ofTerm (.ofFactor hsixteen))
  have hderives : Formula.Derives .sum "1-sqrt(sqrt(16) )".toList
      (.binary .subtract (.number ⟨1, 0⟩) (.call .sqrt (.call .sqrt (.number ⟨16, 0⟩)))) :=
    .addition 0 (.inr rfl) (.ofTerm (.ofFactor hone))
      (.ofFactor (.call 0 1 .sqrt (by simp [Formula.GroupFree]) (.ofTerm (.ofFactor hroot))))
  have hvalue : Formula.value Constants.standard
      (.binary .subtract (.number ⟨1, 0⟩) (.call .sqrt (.call .sqrt (.number ⟨16, 0⟩)))) = -1 := by
    apply Double.eq_of_toBitVec
    decide +kernel
  have houtcome := Settings.scientificOutcome_of_derives {} 1 hderives (by decide)
  rw [hvalue] at houtcome
  exact ⟨hderives, houtcome⟩

end Calculator
