import Calculator.Failure
import Calculator.Proofs.Expression.Completeness

/-!
# The evaluator and its grammar

The evaluator gives a value to exactly the texts of the grammar whose numbers stand inside at most
255 signs and brackets, and the value is that of the derived tree. A text has one tree only, so
leaving closing brackets out does not make the grammar ambiguous.
-/

namespace Calculator.Expression

/-- The readers accept exactly the derived texts within the bound on signs and brackets. -/
theorem parse_eq_ok_iff {g : Grammar} {s : Text} {e : Expression} :
    parse g s = .ok e ↔ Accepts g s e ∧ e.nesting < maxNesting :=
  ⟨accepts_of_parse, fun h => parse_of_accepts h.1 h.2⟩

/-- A text has at most one tree within the bound. -/
theorem Accepts.unique {g : Grammar} {s : Text} {e e' : Expression} (h : Accepts g s e)
    (h' : Accepts g s e') (hnest : e.nesting < maxNesting) (hnest' : e'.nesting < maxNesting) :
    e = e' := by
  have hparse := parse_of_accepts h hnest
  rw [parse_of_accepts h' hnest'] at hparse
  exact (Except.ok.inj hparse).symm

/-- What has a value has been read. -/
theorem evaluate_eq_ok {g : Grammar} {s : Text} {x : Float} (h : evaluate g s = .ok x) :
    ∃ e, parse g s = .ok e ∧ e.value = x := by
  unfold evaluate at h
  cases hparse : parse g s with
  | error u =>
    rw [hparse] at h
    cases h
  | ok e =>
    rw [hparse] at h
    exact ⟨e, rfl, Except.ok.inj h⟩

/-- The value of a derived text. -/
theorem evaluate_of_accepts {g : Grammar} {s : Text} {e : Expression} (h : Accepts g s e)
    (hnest : e.nesting < maxNesting) : evaluate g s = .ok e.value := by
  rw [evaluate, parse_of_accepts h hnest]
  rfl

/-- The value of a text that is derived without spaces at its end. -/
theorem evaluate_of_derives {g : Grammar} {s : Text} {e : Expression}
    (h : Derives g true .sum s e) (hnest : e.nesting < maxNesting) :
    evaluate g s = .ok e.value :=
  evaluate_of_accepts ⟨s, 0, (List.append_nil s).symm, h⟩ hnest

/-- No text goes on after an expression with a character that is no operator, whether there are
spaces before it or not. -/
theorem evaluate_before {g : Grammar} {s : Text} {e : Expression} (h : Derives g false .sum s e)
    (hnest : e.nesting < maxNesting) {c : Char} (hspace : c ≠ ' ')
    (hnumeric : isNumeric c = false) (hterm : Operator.ofTermSign? c = none)
    (hfactor : Operator.ofFactorSign? g c = none) (n : Nat) (t : Text) :
    evaluate g (s ++ (spaces n ++ c :: t)) = .error ⟨s.length + n, .character c⟩ := by
  have hread := readSum_before (h.followedBy hnest (follows_character hnumeric n t)) hspace hterm
    hfactor
  have hplace : (s ++ (spaces n ++ c :: t)).length - (c :: t).length = s.length + n := by
    simp only [List.length_append, spaces, List.length_replicate]
    omega
  have hparse : parse g (s ++ (spaces n ++ c :: t)) =
      .error ⟨(s ++ (spaces n ++ c :: t)).length - (c :: t).length, .character c⟩ := by
    rw [parse, hread]
    rfl
  rw [evaluate, hparse, hplace]
  rfl

/-- **The evaluator accepts exactly its grammar and computes the value of the derivation.** A text
outside of the grammar, or with a number too deep in it, is a syntax error. -/
theorem evaluate_eq_ok_iff_accepts (g : Grammar) (s : Text) :
    (∀ v, evaluate g s = .ok v ↔ ∃ e, Accepts g s e ∧ e.nesting ≤ 255 ∧ e.value = v) ∧
      ((¬∃ e, Accepts g s e ∧ e.nesting ≤ 255) →
        ∃ u, evaluate g s = .error u ∧ (Failure.ofUnexpected u).code = "SYNTAX_ERROR".toList) := by
  have hiff (v : Float) :
      evaluate g s = .ok v ↔ ∃ e, Accepts g s e ∧ e.nesting ≤ 255 ∧ e.value = v := by
    constructor
    · intro h
      cases hparse : parse g s with
      | error u => simp [evaluate, hparse, Except.map] at h
      | ok e =>
        obtain ⟨haccepts, hnest⟩ := parse_eq_ok_iff.mp hparse
        refine ⟨e, haccepts, Nat.le_of_lt_succ hnest, ?_⟩
        simpa [evaluate, hparse, Except.map] using h
    · rintro ⟨e, haccepts, hnest, rfl⟩
      exact evaluate_of_accepts haccepts (Nat.lt_succ_of_le hnest)
  refine ⟨hiff, fun hnone => ?_⟩
  cases heval : evaluate g s with
  | error u => exact ⟨u, rfl, rfl⟩
  | ok v =>
    obtain ⟨e, haccepts, hnest, _⟩ := (hiff v).mp heval
    exact absurd ⟨e, haccepts, hnest⟩ hnone

/-- `6*-(2` is derived although its bracket is left open, and `6*` is a syntax error. -/
theorem evaluate_unclosed_product :
    (∃ e, Accepts .scientific "6*-(2".toList e ∧ e.nesting ≤ 255 ∧ e.value = -12) ∧
      ∃ u, evaluate .scientific "6*".toList = .error u ∧
        (Failure.ofUnexpected u).code = "SYNTAX_ERROR".toList := by
  have hvalue : evaluate .scientific "6*-(2".toList = .ok (-12) := by
    decide +kernel
  have herror : evaluate .scientific "6*".toList = .error ⟨2, .ending⟩ := by
    decide +kernel
  have hnone : ¬∃ e, Accepts .scientific "6*".toList e ∧ e.nesting ≤ 255 := by
    rintro ⟨e, haccepts, hnest⟩
    rw [evaluate_of_accepts haccepts (Nat.lt_succ_of_le hnest)] at herror
    cases herror
  exact ⟨((evaluate_eq_ok_iff_accepts .scientific _).1 (-12)).mp hvalue,
    (evaluate_eq_ok_iff_accepts .scientific _).2 hnone⟩

end Calculator.Expression
