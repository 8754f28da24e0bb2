import Calculator.Proofs.Radix.Runs
import Calculator.Proofs.Scientific.Refinement

/-!
# The expressions of both calculators

Both calculators read decimal digits, the four operators and brackets. The programmer calculator
first writes each run of digits anew, which drops zeros at its start and nothing else; the
scientific one finds no call to reduce and no constant to write. So the two evaluate texts of the
same tokens, each in its own grammar, and a derivation of the one text in the one grammar is a
derivation of the other text in the other grammar.
-/

namespace Calculator

open Expression (Derives Level parse spaces)
open Radix (Rewritten dec operators isOperator)

variable {g g' : Grammar} {s t : Text} {e : Expression}

/-! ## Spaces and operators of a rewritten text -/

theorem Radix.Rewritten.eq_zero_of_spaces {a b : Text} {n : Nat}
    (h : Rewritten dec (a ++ spaces n ++ b) t) : n = 0 := by
  cases n with
  | zero => rfl
  | succ n => exact absurd (h.characters ' ' (by simp [spaces, List.replicate_succ])) (by decide)

/-- An operator between two parts of a text stays between them. -/
theorem Radix.Rewritten.join {a b : Text} {n : Nat} {c : Char}
    (h : Rewritten dec (a ++ spaces n ++ c :: b) t) (hc : c ∈ operators) :
    ∃ a' b', t = a' ++ spaces n ++ c :: b' ∧ Rewritten dec a a' ∧ Rewritten dec b b' := by
  obtain rfl := h.eq_zero_of_spaces
  rw [spaces, List.replicate_zero, List.append_nil] at h
  obtain ⟨a', b', rfl, ha, hb⟩ := h.split hc
  exact ⟨a', b', by rw [spaces, List.replicate_zero, List.append_nil], ha, hb⟩

/-- A sign or bracket before a text stays before it. -/
theorem Radix.Rewritten.opening {b : Text} {n : Nat} {c : Char}
    (h : Rewritten dec (spaces n ++ c :: b) t) (hc : c ∈ operators) :
    ∃ b', t = spaces n ++ c :: b' ∧ Rewritten dec b b' := by
  obtain ⟨a', b', rfl, ha, hb⟩ := Radix.Rewritten.join (a := []) h hc
  obtain rfl := ha.eq_nil
  exact ⟨b', rfl, hb⟩

/-- A numeral stays a numeral of the same decimal. -/
theorem Radix.Rewritten.numeral {n : Nat} (h : Rewritten dec (spaces n ++ s) t)
    (hs : Decimal.IsNumeral s) : ∃ t', t = spaces n ++ t' ∧ Decimal.IsNumeral t' ∧
      Decimal.ofNumeral t' = Decimal.ofNumeral s := by
  obtain rfl := Radix.Rewritten.eq_zero_of_spaces (a := []) h
  rw [spaces, List.replicate_zero, List.nil_append] at h
  refine ⟨t, rfl, ?_⟩
  cases h with
  | run hrun =>
    refine ⟨?_, hrun.ofNumeral_eq.symm⟩
    cases hrun with
    | empty => exact hs
    | digits _ ht => exact .of_digits ht.isDigit ht.1
  | operator _ hc _ =>
    have hnumeric := hs.numeric _ (List.mem_append_right _ List.mem_cons_self)
    have hoperators : operators.all (!Expression.isNumeric ·) = true := by decide
    have hnot := List.all_eq_true.mp hoperators _ hc
    simp [hnumeric] at hnot

/-! ## Both texts in both grammars -/

/-- By induction on the derivation: what stands for a derived text is derived with the same tree,
in either grammar. -/
theorem Expression.Derives.of_rewritten {last : Bool} {level : Level}
    (hs : Derives g last level s e) (h : Rewritten dec s t) : Derives g' last level t e := by
  induction hs generalizing t with
  | ofTerm _ ih => exact .ofTerm (ih h)
  | addition n hop _ _ ihl ihr =>
    obtain ⟨a, b, rfl, ha, hb⟩ := h.join (by rcases hop with rfl | rfl <;> decide)
    exact .addition n hop (ihl ha) (ihr hb)
  | ofFactor _ ih => exact .ofFactor (ih h)
  | @product last s u l r op n hop _ _ ihl ihr =>
    -- only the sign of a power tells the grammars apart, and it is never rewritten
    have hsign : op.sign ∈ operators :=
      (h.characters op.sign (by simp)).resolve_left (by cases op <;> decide)
    have hop' : op.JoinsFactors g' := by
      rcases hop with rfl | rfl | ⟨rfl, -⟩
      · exact .inl rfl
      · exact .inr (.inl rfl)
      · exact absurd hsign (by decide)
    obtain ⟨a, b, rfl, ha, hb⟩ := h.join hsign
    exact .product n hop' (ihl ha) (ihr hb)
  | plus n _ ih =>
    obtain ⟨b, rfl, hb⟩ := h.opening (by decide)
    exact .plus n (ih hb)
  | minus n _ ih =>
    obtain ⟨b, rfl, hb⟩ := h.opening (by decide)
    exact .minus n (ih hb)
  | group n m _ ih =>
    rw [List.append_assoc, List.append_assoc, List.cons_append, ← List.append_assoc] at h
    obtain ⟨b, rfl, hb⟩ := h.opening (by decide)
    obtain ⟨a, b, rfl, ha, hb⟩ := hb.join (by decide)
    obtain rfl := hb.eq_nil
    rw [← List.cons_append, ← List.cons_append, ← List.append_assoc, ← List.append_assoc]
    exact .group n m (ih ha)
  | unclosed n _ ih =>
    obtain ⟨b, rfl, hb⟩ := h.opening (by decide)
    exact .unclosed n (ih hb)
  | number n hs =>
    obtain ⟨t', rfl, ht', heq⟩ := h.numeral hs
    rw [← heq]
    exact .number n ht'
  | undefined n hg => exact absurd (h.characters 'N' (by simp)) (by decide)
  | infinity n hg => exact absurd (h.characters 'i' (by simp)) (by decide)

theorem Expression.parse_of_rewritten (h : Rewritten dec s t) (hs : parse g s = .ok e) :
    parse g' t = .ok e := by
  obtain ⟨⟨u, n, rfl, hD⟩, hnest⟩ := Expression.parse_eq_ok_iff.mp hs
  obtain rfl : n = 0 := Radix.Rewritten.eq_zero_of_spaces (b := []) (by rwa [List.append_nil])
  rw [spaces, List.replicate_zero, List.append_nil] at h
  refine Expression.parse_eq_ok_iff.mpr ⟨⟨t, 0, ?_, hD.of_rewritten h⟩, hnest⟩
  rw [spaces, List.replicate_zero, List.append_nil]

/-- Texts that stand for each other have one outcome, in whichever grammars they are read. -/
theorem Outcome.evaluate_of_rewritten (h : Rewritten dec s t) :
    ofResult (evaluate g s) = ofResult (evaluate g' t) := by
  rw [evaluate, evaluate]
  cases hs : parse g s with
  | ok e => rw [Expression.parse_of_rewritten h hs]
  | error u =>
    cases ht : parse g' t with
    | error u' => rfl
    | ok e =>
      rw [Expression.parse_of_rewritten h.symm ht] at hs
      cases hs

theorem Outcome.ofResult_mapError {ε ε' : Type} (f : ε → ε') (result : Except ε Float) :
    ofResult (result.mapError f) = ofResult result := by
  cases result <;> rfl

/-- A text without calls and symbols is evaluated by the scientific calculator as it is. -/
theorem Settings.scientificOutcome_of_free (settings : Settings)
    (hforeign : ∀ c ∈ 'π' :: 'e' :: Function.initials, c ∉ s) :
    settings.scientificOutcome s = .ofResult (evaluate .scientific s) := by
  have hcalls : ¬Call.Occurs s := not_occurs_of_initials fun c hc hinitial =>
    hforeign c (List.mem_cons_of_mem _ (List.mem_cons_of_mem _ hinitial)) hc
  have hreduce : reduceCalls settings.constants settings.maxReductions s = .ok s :=
    Reduction.reduceCalls_eq_ok_iff.mpr ⟨.refl, hcalls⟩
  have hwrite : settings.constants.substitute s = s :=
    settings.constants.substitute_eq_self (hforeign _ (by simp)) (hforeign _ (by simp))
  rw [scientificOutcome, scientificValue, hreduce, ok_bind, hwrite, Outcome.ofResult_mapError]

/-- A text of both languages has no call and no symbol. -/
theorem Settings.scientificOutcome_of_rewritten (settings : Settings) (h : Rewritten dec s t) :
    settings.scientificOutcome s = .ofResult (evaluate .scientific s) := by
  refine settings.scientificOutcome_of_free fun c hc hmem => ?_
  have hletters : ('π' :: 'e' :: Function.initials).all
      (fun c => !c.isDigit && !operators.contains c) = true := by decide
  have hletter := List.all_eq_true.mp hletters c hc
  rcases h.characters c hmem with hdigit | hoperator
  · simp [hdigit] at hletter
  · simp [hoperator] at hletter

/-- The programmer calculator evaluates the expression in base ten that a text stands for. -/
theorem programmerOutcome_of_rewritten {r : Radix} (h : Rewritten r s t) :
    programmerOutcome r t = .ofResult (evaluate .programmer s) := by
  obtain ⟨converted, hdecimal, hconverted⟩ := h.toBaseTen_eq
  rw [programmerOutcome, programmerValue, hconverted, ok_bind, Outcome.ofResult_mapError]
  exact Outcome.evaluate_of_rewritten (Radix.rewritten_of_toBaseTen hdecimal)

/-! ## Shared expressions -/

/-- An expression of both calculators: digits between operators and brackets, where no run of digits
is beyond the integers with 64 bits. -/
structure IsShared (s : Text) : Prop where
  characters : ∀ c ∈ s, c.isDigit = true ∨ c ∈ operators
  bounded : ∀ run ∈ s.splitOnP isOperator, (dec.positional run : Int) ≤ Int64.maxValue.toInt

/-- The literals of a shared expression are converted. -/
theorem IsShared.exists_toBaseTen (h : IsShared s) : ∃ t, dec.toBaseTen s = .ok t := by
  obtain ⟨hcharacters, hbounded⟩ := h
  have hconvert : ∀ run : Text, (∀ c ∈ run, isOperator c = false) →
      (∀ c ∈ run, c.isDigit = true ∨ c ∈ operators) →
      (dec.positional run : Int) ≤ Int64.maxValue.toInt →
      ∃ converted, dec.convertRun run = .ok converted := by
    intro run hfree hrun hbound
    have hdigits : ∀ c ∈ run, dec.hasDigit c = true := by
      intro c hc
      rw [Radix.hasDigit_dec]
      refine (hrun c hc).resolve_right ?_
      rw [← Radix.isOperator_iff, hfree c hc]
      decide
    obtain ⟨digits, hsame⟩ := Radix.exists_sameRun dec hdigits hbound
    obtain ⟨converted, hconverted, -⟩ := hsame.convertRun_eq
    exact ⟨converted, hconverted⟩
  induction s using Radix.run_induction with
  | run run hfree =>
    rw [List.splitOnP_eq_singleton hfree, List.forall_mem_singleton] at hbounded
    rw [Radix.toBaseTen_of_free dec hfree]
    exact hconvert run hfree hcharacters hbounded
  | operator run c s hfree hc ih =>
    rw [List.splitOnP_append_cons_of_forall_mem hfree c hc, List.forall_mem_cons] at hbounded
    rw [List.forall_mem_append, List.forall_mem_cons] at hcharacters
    obtain ⟨converted, hrun⟩ := hconvert run hfree hcharacters.1 hbounded.1
    obtain ⟨rest, hrest⟩ := ih hcharacters.2.2 hbounded.2
    rw [Radix.toBaseTen_append_cons dec hfree hc, hrun, hrest]
    exact ⟨_, rfl⟩

/-- **The two calculators agree where their languages overlap.** Whatever the settings are, a shared
expression has the same outcome in both, also where it is malformed, undefined or infinite; and
every text that the programmer calculator does not find malformed in base ten has the same outcome
in the scientific one. -/
theorem Settings.scientificOutcome_eq_programmerOutcome (settings : Settings) (s : Text) :
    (IsShared s → settings.scientificOutcome s = programmerOutcome dec s) ∧
    (programmerOutcome dec s ≠ .malformed →
      settings.scientificOutcome s = programmerOutcome dec s) := by
  have hconverted : ∀ t, dec.toBaseTen s = .ok t →
      settings.scientificOutcome s = programmerOutcome dec s := by
    intro t ht
    have hrewritten := (Radix.rewritten_of_toBaseTen ht).symm
    rw [settings.scientificOutcome_of_rewritten hrewritten, programmerOutcome, programmerValue, ht,
      ok_bind, Outcome.ofResult_mapError]
    exact Outcome.evaluate_of_rewritten hrewritten
  constructor
  · intro hs
    obtain ⟨t, ht⟩ := hs.exists_toBaseTen
    exact hconverted t ht
  · intro hne
    cases ht : dec.toBaseTen s with
    | ok t => exact hconverted t ht
    | error failure =>
      rw [programmerOutcome, programmerValue, ht] at hne
      exact absurd rfl hne

/-- Zeros at the start of a number and a bracket that is left open, and a sign without an operand:
the first expression comes to seven and the second one is malformed in both calculators. -/
theorem Settings.scientificOutcome_eq_programmerOutcome_zeros :
    IsShared "007*(2-1".toList ∧ programmerDisplay dec "007*(2-1".toList = "7".toList ∧
    Settings.scientificOutcome {} "007*(2-1".toList = programmerOutcome dec "007*(2-1".toList ∧
    IsShared "007*(-".toList ∧
    Settings.scientificOutcome {} "007*(-".toList = programmerOutcome dec "007*(-".toList := by
  have hclosed : programmerDisplay dec "007*(2-1".toList = "7".toList := by decide +kernel
  have hmalformed : programmerOutcome dec "007*(2-1".toList ≠ .malformed := by
    intro h
    rw [programmerDisplay, h] at hclosed
    exact absurd hclosed (by decide)
  have hshared : IsShared "007*(2-1".toList := ⟨by simp [operators], by decide +kernel⟩
  have hsign : IsShared "007*(-".toList := ⟨by simp [operators], by decide +kernel⟩
  exact ⟨hshared, hclosed, (scientificOutcome_eq_programmerOutcome {} _).2 hmalformed, hsign,
    (scientificOutcome_eq_programmerOutcome {} _).1 hsign⟩

end Calculator
