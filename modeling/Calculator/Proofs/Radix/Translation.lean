import Calculator.Proofs.Expression.Fault
import Calculator.Proofs.Radix.Runs

/-!
# The translation of expressions to base ten

The conversion of an expression is described here by its runs alone: the maximal pieces without
operators and brackets. It succeeds exactly if every run is a literal of the base, and then replaces
each run in its place by the decimal text of its integer. Otherwise it fails with the first run that
is no literal. A translated expression holds digits and operators only, so it is its own translation
in base ten, and the evaluator never meets a malformed number in it.
-/

namespace Calculator.Radix

/-- The maximal runs of characters that are no operators, from left to right. -/
def runs (s : Text) : List Text := (s.splitOnP isOperator).filter (· ≠ [])

/-- What stands between two operators becomes this in base ten: nothing stays nothing, and a literal
becomes the ordinary decimal text of its integer, which is not negative. -/
inductive TranslatedRun (r : Radix) : Text → Text → Prop
  | empty : TranslatedRun r [] []
  | literal {run : Text} {n : Int64} (hparse : r.parse run = .ok n) (hn : 0 ≤ n.toInt) :
      TranslatedRun r run (toString n.toInt).toList

variable {r : Radix} {s t run converted : Text}

theorem runs_of_free (hfree : ∀ c ∈ run, isOperator c = false) :
    runs run = [run].filter (· ≠ []) := by
  rw [runs, List.splitOnP_eq_singleton hfree]

/-- The runs of a text are those on both sides of any of its operators. -/
theorem runs_append_cons {c : Char} (hc : isOperator c = true) (a b : Text) :
    runs (a ++ c :: b) = runs a ++ runs b := by
  rw [runs, List.splitOnP_append_cons a b hc, List.filter_append, runs, runs]

/-- A literal without a sign stands for no negative integer. -/
theorem nonneg_of_parse {n : Int64} (hfree : ∀ c ∈ run, isOperator c = false)
    (h : r.parse? run = some n) : 0 ≤ n.toInt := by
  rw [((parse?_eq_some_iff.mp h).of_free hfree).2]
  exact Int.natCast_nonneg _

/-- A run is translated, or it is no literal and the failure names it with its base. -/
theorem convertRun_cases (r : Radix) (hfree : ∀ c ∈ run, isOperator c = false) :
    (∃ converted, r.convertRun run = .ok converted ∧ TranslatedRun r run converted ∧
      ∀ literal ∈ runs run, ∃ n, r.parse literal = .ok n) ∨
    (r.convertRun run = .error (.literal run r.base) ∧ runs run = [run] ∧
      ¬∃ n, r.parse run = .ok n) := by
  rw [runs_of_free hfree]
  by_cases hnil : run = []
  · subst hnil
    exact .inl ⟨[], rfl, .empty, by simp⟩
  · have hrun : [run].filter (· ≠ []) = [run] := by simp [hnil]
    rw [hrun, convertRun, if_neg (by simp [hnil]), List.forall_mem_singleton]
    cases hparse : r.parse? run with
    | none =>
      have herror : r.parse run = .error (.literal run r.base) := by rw [parse, hparse]
      rw [herror]
      refine .inr ⟨rfl, rfl, ?_⟩
      rintro ⟨n, hn⟩
      cases hn
    | some n =>
      have hok : r.parse run = .ok n := by rw [parse, hparse]
      have htext : Text.ofInt64 n = (toString n.toInt).toList := by
        rw [ofInt64_eq_render, render_dec]
      refine .inl ⟨_, ?_, .literal hok (nonneg_of_parse hfree hparse), n, hok⟩
      rw [hok, ← htext]
      rfl

/-- By induction on the runs: what has been passed is translated in its place and holds literals
only, up to the first run that is none. -/
theorem toBaseTen_cases (r : Radix) (s : Text) :
    (∃ t, r.toBaseTen s = .ok t ∧ t.filter isOperator = s.filter isOperator ∧
      List.Forall₂ (TranslatedRun r) (s.splitOnP isOperator) (t.splitOnP isOperator) ∧
      ∀ run ∈ runs s, ∃ n, r.parse run = .ok n) ∨
    ∃ before run after, r.toBaseTen s = .error (.literal run r.base) ∧
      runs s = before ++ run :: after ∧ (∀ literal ∈ before, ∃ n, r.parse literal = .ok n) ∧
      ¬∃ n, r.parse run = .ok n := by
  have hfilter {run : Text} (hfree : ∀ c ∈ run, isOperator c = false) :
      run.filter isOperator = [] := by simpa using hfree
  induction s using run_induction with
  | run run hfree =>
    rw [toBaseTen_of_free r hfree]
    rcases convertRun_cases r hfree with
      ⟨converted, hrun, htranslated, hliterals⟩ | ⟨hrun, hruns, hnot⟩
    · have hfree' := (sameRun_of_convertRun hfree hrun).free.1
      refine .inl ⟨converted, hrun, by rw [hfilter hfree, hfilter hfree'], ?_, hliterals⟩
      rw [List.splitOnP_eq_singleton hfree, List.splitOnP_eq_singleton hfree']
      exact .cons htranslated .nil
    · exact .inr ⟨[], run, [], hrun, hruns, nofun, hnot⟩
  | operator run c s hfree hc ih =>
    rw [toBaseTen_append_cons r hfree hc, runs_append_cons hc]
    rcases convertRun_cases r hfree with
      ⟨converted, hrun, htranslated, hliterals⟩ | ⟨hrun, hruns, hnot⟩
    · rw [hrun]
      rcases ih with
        ⟨t, ht, hoperators, hparts, hrest⟩ | ⟨before, literal, after, ht, hruns, hbefore, hnot⟩
      · have hfree' := (sameRun_of_convertRun hfree hrun).free.1
        refine .inl ⟨converted ++ c :: t, by rw [ht]; rfl, ?_, ?_, ?_⟩
        · rw [List.filter_append, List.filter_append, hfilter hfree, hfilter hfree',
            List.filter_cons_of_pos hc, List.filter_cons_of_pos hc, hoperators]
        · rw [List.splitOnP_append_cons_of_forall_mem hfree c hc,
            List.splitOnP_append_cons_of_forall_mem hfree' c hc]
          exact .cons htranslated hparts
        · rw [List.forall_mem_append]
          exact ⟨hliterals, hrest⟩
      · refine .inr ⟨runs run ++ before, literal, after, by rw [ht]; rfl, ?_, ?_, hnot⟩
        · rw [hruns, List.append_assoc]
        · rw [List.forall_mem_append]
          exact ⟨hliterals, hbefore⟩
    · exact .inr ⟨[], run, runs s, by rw [hrun]; rfl, by rw [hruns]; rfl, nofun, hnot⟩

/-- **The conversion to base ten is an exact translation.** It succeeds exactly if all runs between
the operators are literals of the base. Then the operators are those of the expression, what stands
between two of them is translated in its place, nothing but digits and operators is left, the
outcome is its own translation in base ten, and evaluating it never fails for a malformed number. If
it fails, it is with the first run that is no literal, as it is written, and the base. -/
theorem toBaseTen_translates (r : Radix) (s : Text) :
    ((∃ t, r.toBaseTen s = .ok t) ↔ ∀ run ∈ runs s, ∃ n, r.parse run = .ok n) ∧
    (∀ t, r.toBaseTen s = .ok t →
      t.filter isOperator = s.filter isOperator ∧
      List.Forall₂ (TranslatedRun r) (s.splitOnP isOperator) (t.splitOnP isOperator) ∧
      (∀ c ∈ t, c.isDigit = true ∨ c ∈ operators) ∧
      dec.toBaseTen t = .ok t ∧
      ∀ u, evaluate .programmer t = .error u → ∀ run, u.found ≠ .numeral run) ∧
    ∀ failure, r.toBaseTen s = .error failure → ∃ before run after,
      runs s = before ++ run :: after ∧ (∀ literal ∈ before, ∃ n, r.parse literal = .ok n) ∧
        (¬∃ n, r.parse run = .ok n) ∧ failure = .literal run r.base := by
  rcases toBaseTen_cases r s with
    ⟨t, ht, hoperators, hparts, hliterals⟩ | ⟨before, run, after, hs, hruns, hbefore, hnot⟩
  · refine ⟨iff_of_true ⟨t, ht⟩ hliterals, fun t' ht' => ?_, fun failure hfailure => ?_⟩
    · obtain rfl := Except.ok.inj (ht.symm.trans ht')
      have hrewritten := rewritten_of_toBaseTen ht
      have hcharacters := hrewritten.characters
      refine ⟨hoperators, hparts, hcharacters, ?_, fun u hu => ?_⟩
      · obtain ⟨converted, hdecimal, hconverted⟩ := hrewritten.toBaseTen_eq
        rw [hdecimal, ← hconverted, ht]
      · exact Expression.found_ne_numeral hu fun hpoint =>
          (hcharacters _ hpoint).elim (by decide) (by decide)
    · cases ht.symm.trans hfailure
  · have hfails : ¬∀ run ∈ runs s, ∃ n, r.parse run = .ok n := fun hall =>
      hnot (hall run (by simp [hruns]))
    refine ⟨iff_of_false ?_ hfails, fun t ht => ?_, fun failure hfailure => ?_⟩
    · rintro ⟨t, ht⟩
      cases hs.symm.trans ht
    · cases hs.symm.trans ht
    · cases hs.symm.trans hfailure
      exact ⟨before, run, after, hruns, hbefore, hnot, rfl⟩

/-- Runs in digits of both cases are translated in their places, and an expression with two runs
that are no literals fails with the first of them. -/
theorem toBaseTen_translates_hex :
    hex.toBaseTen "fF*(001-7F)".toList = .ok "255*(1-127)".toList ∧
    (∀ run ∈ runs "fF*(001-7F)".toList, ∃ n, hex.parse run = .ok n) ∧
    dec.toBaseTen "255*(1-127)".toList = .ok "255*(1-127)".toList ∧
    hex.toBaseTen "A(1 G.5-*".toList = .error (.literal "1 G.5".toList 16) ∧
    ∃ before after, runs "A(1 G.5-*".toList = before ++ "1 G.5".toList :: after ∧
      ∀ literal ∈ before, ∃ n, hex.parse literal = .ok n := by
  have htext : hex.toBaseTen "fF*(001-7F)".toList = .ok "255*(1-127)".toList := by decide +kernel
  have hfailure : hex.toBaseTen "A(1 G.5-*".toList = .error (.literal "1 G.5".toList 16) := by
    decide +kernel
  obtain ⟨hiff, htranslated, -⟩ := toBaseTen_translates hex "fF*(001-7F)".toList
  obtain ⟨-, -, -, hagain, -⟩ := htranslated _ htext
  obtain ⟨-, -, hfails⟩ := toBaseTen_translates hex "A(1 G.5-*".toList
  obtain ⟨before, run, after, hruns, hbefore, -, hrun⟩ := hfails _ hfailure
  cases hrun
  exact ⟨htext, hiff.mp ⟨_, htext⟩, hagain, hfailure, before, after, hruns, hbefore⟩

end Calculator.Radix
