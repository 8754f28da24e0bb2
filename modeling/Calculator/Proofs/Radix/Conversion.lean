import Calculator.Proofs.Display
import Calculator.Proofs.Except

/-!
# One expression in two bases

Operators and brackets stand for themselves in every base, and only the literals between them depend
on it. An expression in base ten and the same one with its literals written in another base are
converted to the same text, so they have one outcome, and their displays are one integer in two
bases.
-/

namespace Calculator.Radix

/-- Runs between operators that stand for each other: both are empty, or both are digits of one
integer with 64 bits, the first in base ten and the second in another base. -/
inductive SameRun (r : Radix) : Text → Text → Prop
  | empty : SameRun r [] []
  | digits {decimal digits : Text} (hdecimal : dec.IsDigits decimal) (hdigits : r.IsDigits digits)
    (hvalue : r.positional digits = dec.positional decimal)
    (hbound : (dec.positional decimal : Int) ≤ Int64.maxValue.toInt) : SameRun r decimal digits

/-- The second text is the first one, an expression in base ten, with every run of digits written in
another base. -/
inductive Rewritten (r : Radix) : Text → Text → Prop
  /-- A run without operators. -/
  | run {decimal digits : Text} (hrun : SameRun r decimal digits) : Rewritten r decimal digits
  /-- A run, an operator or bracket, and what is after it. -/
  | operator {decimal digits s t : Text} {c : Char} (hrun : SameRun r decimal digits)
    (hc : c ∈ operators) (hrest : Rewritten r s t) :
    Rewritten r (decimal ++ c :: s) (digits ++ c :: t)

/-- Digits of an integer with 64 bits can be written in every base. -/
theorem exists_sameRun (r : Radix) {decimal : Text} (hdigits : ∀ c ∈ decimal, dec.hasDigit c = true)
    (hbound : (dec.positional decimal : Int) ≤ Int64.maxValue.toInt) :
    ∃ digits, SameRun r decimal digits := by
  by_cases hnil : decimal = []
  · subst hnil
    exact ⟨[], .empty⟩
  · exact ⟨_, .digits ⟨hnil, hdigits⟩ (isWritten_digitsOf r _).isDigits (positional_digitsOf r _)
      hbound⟩

theorem SameRun.hasDigit {r : Radix} {decimal digits : Text} (h : SameRun r decimal digits) :
    ∀ c ∈ decimal, dec.hasDigit c = true := by
  cases h with
  | empty => exact nofun
  | digits hdecimal => exact hdecimal.2

/-- Every text of decimal digits and operators without a number beyond 64 bits can be written in
every base. -/
theorem exists_rewritten (r : Radix) {s : Text}
    (hchars : ∀ c ∈ s, dec.hasDigit c = true ∨ c ∈ operators)
    (hbound : ∀ run, run <:+: s → (∀ c ∈ run, dec.hasDigit c = true) →
      (dec.positional run : Int) ≤ Int64.maxValue.toInt) : ∃ t, Rewritten r s t := by
  induction s with
  | nil => exact ⟨[], .run .empty⟩
  | cons c s ih =>
    obtain ⟨t, ht⟩ := ih (fun d hd => hchars d (List.mem_cons_of_mem c hd))
      fun run hrun => hbound run (List.infix_cons hrun)
    rcases hchars c List.mem_cons_self with hdigit | hoperator
    · -- the digit goes before the first run of the rest
      have hfirst : ∀ run digits, SameRun r run digits → c :: run <+: c :: s →
          ∃ digits, SameRun r (c :: run) digits := by
        intro run digits hrun hprefix
        have hall : ∀ d ∈ c :: run, dec.hasDigit d = true :=
          List.forall_mem_cons.mpr ⟨hdigit, hrun.hasDigit⟩
        exact exists_sameRun r hall (hbound _ hprefix.isInfix hall)
      cases ht with
      | run hrun =>
        obtain ⟨digits, hdigits⟩ := hfirst _ _ hrun List.prefix_rfl
        exact ⟨digits, .run hdigits⟩
      | operator hrun hc hrest =>
        obtain ⟨digits, hdigits⟩ := hfirst _ _ hrun (List.prefix_append (c :: _) _)
        exact ⟨_, .operator hdigits hc hrest⟩
    · exact ⟨_, .operator .empty hoperator ht⟩

/-! ## Runs and operators -/

theorem isOperator_iff {c : Char} : isOperator c = true ↔ c ∈ operators := by
  rw [isOperator, List.contains_eq_mem, decide_eq_true_eq]

/-- A text without operators is one run. -/
theorem segments_of_free {run : Text} (hfree : ∀ c ∈ run, isOperator c = false) :
    segments run = (run, []) := by
  induction run with
  | nil => rfl
  | cons d run ih =>
    rw [segments, ih fun c hc => hfree c (List.mem_cons_of_mem d hc)]
    simp [hfree d List.mem_cons_self]

/-- An operator ends the run before it. -/
theorem segments_append_cons {run : Text} (hfree : ∀ c ∈ run, isOperator c = false) {c : Char}
    (hc : isOperator c = true) (s : Text) :
    segments (run ++ c :: s) = (run, (c, (segments s).1) :: (segments s).2) := by
  induction run with
  | nil =>
    rw [List.nil_append, segments]
    simp [hc]
  | cons d run ih =>
    rw [List.cons_append, segments, ih fun c hc => hfree c (List.mem_cons_of_mem d hc)]
    simp [hfree d List.mem_cons_self]

theorem toBaseTen_nil (r : Radix) : r.toBaseTen [] = .ok [] := rfl

/-- A text without operators is converted as a run. -/
theorem toBaseTen_of_free (r : Radix) {run : Text} (hfree : ∀ c ∈ run, isOperator c = false) :
    r.toBaseTen run = r.convertRun run := by
  rw [toBaseTen, segments_of_free hfree]
  simp only [List.mapM_nil, pure_bind, List.flatten_nil, List.append_nil, bind_pure]

/-- An expression is converted run by run, and its operators stay in their places. -/
theorem toBaseTen_append_cons (r : Radix) {run : Text} (hfree : ∀ d ∈ run, isOperator d = false)
    {c : Char} (hc : isOperator c = true) (s : Text) :
    r.toBaseTen (run ++ c :: s) = do
      let converted ← r.convertRun run
      let rest ← r.toBaseTen s
      return converted ++ c :: rest := by
  rw [toBaseTen, segments_append_cons hfree hc, toBaseTen]
  simp only [List.mapM_cons, bind_assoc, pure_bind, List.flatten_cons, List.cons_append]

/-! ## Literals in two bases -/

/-- No operator is a digit of any base. -/
theorem isOperator_eq_false_of_hasDigit {r : Radix} {c : Char} (h : r.hasDigit c = true) :
    isOperator c = false := by
  have hoperators : operators.any r.hasDigit = false := by cases r <;> decide
  rw [List.any_eq_false] at hoperators
  rw [Bool.eq_false_iff, Ne, isOperator_iff]
  exact fun hc => hoperators c hc h

theorem hasDigit_of_mem_operators {r : Radix} {c : Char} (hc : c ∈ operators) :
    r.hasDigit c = false := by
  cases hdigit : r.hasDigit c with
  | false => rfl
  | true =>
    have hfree := isOperator_eq_false_of_hasDigit hdigit
    rw [isOperator_iff.mpr hc] at hfree
    cases hfree

theorem IsDigits.free {r : Radix} {digits : Text} (h : r.IsDigits digits) :
    ∀ c ∈ digits, isOperator c = false := fun c hc => isOperator_eq_false_of_hasDigit (h.2 c hc)

theorem SameRun.free {r : Radix} {decimal digits : Text} (h : SameRun r decimal digits) :
    (∀ c ∈ decimal, isOperator c = false) ∧ ∀ c ∈ digits, isOperator c = false := by
  cases h with
  | empty => exact ⟨nofun, nofun⟩
  | digits hdecimal hdigits =>
    exact ⟨hdecimal.free, hdigits.free⟩

/-- A literal without operators is digits alone, and denotes their value. -/
theorem Denotes.of_free {r : Radix} {run : Text} {v : Int} (h : r.Denotes run v)
    (hfree : ∀ c ∈ run, isOperator c = false) : r.IsDigits run ∧ v = r.positional run := by
  cases h with
  | unsigned hdigits => exact ⟨hdigits, rfl⟩
  | plus | minus => exact absurd (hfree _ List.mem_cons_self) (by decide)

/-- Digits of an integer with 64 bits are converted to the decimal text of this integer. -/
theorem convertRun_of_isDigits {r : Radix} {digits : Text} {n : Int64} (h : r.IsDigits digits)
    (hn : n.toInt = r.positional digits) : r.convertRun digits = .ok (Text.ofInt64 n) := by
  have hparse : r.parse? digits = some n := by
    rw [parse?_eq_some_iff, hn]
    exact .unsigned h
  rw [convertRun, if_neg (by simp [h.1]), parse, hparse]
  rfl

/-- Runs that stand for each other are converted to the same text. -/
theorem SameRun.convertRun_eq {r : Radix} {decimal digits : Text} (h : SameRun r decimal digits) :
    ∃ converted, dec.convertRun decimal = .ok converted ∧ r.convertRun digits = .ok converted := by
  cases h with
  | empty => exact ⟨[], rfl, rfl⟩
  | digits hdecimal hdigits hvalue hbound =>
    have hn : (Int64.ofInt (dec.positional decimal)).toInt = dec.positional decimal := by
      rw [Int64.toInt_maxValue] at hbound
      exact Int64.toInt_ofInt_of_le (by omega) (by omega)
    refine ⟨_, convertRun_of_isDigits hdecimal hn, convertRun_of_isDigits hdigits ?_⟩
    rw [hn, hvalue]

/-- Both expressions are converted to the same text. -/
theorem Rewritten.toBaseTen_eq {r : Radix} {s t : Text} (h : Rewritten r s t) :
    ∃ converted, dec.toBaseTen s = .ok converted ∧ r.toBaseTen t = .ok converted := by
  induction h with
  | run hrun =>
    rw [toBaseTen_of_free dec hrun.free.1, toBaseTen_of_free r hrun.free.2]
    exact hrun.convertRun_eq
  | operator hrun hc _ ih =>
    obtain ⟨converted, hdecimal, hdigits⟩ := hrun.convertRun_eq
    obtain ⟨rest, hs, ht⟩ := ih
    have hoperator := isOperator_iff.mpr hc
    rw [toBaseTen_append_cons dec hrun.free.1 hoperator, hdecimal, hs,
      toBaseTen_append_cons r hrun.free.2 hoperator, hdigits, ht]
    exact ⟨_, rfl, rfl⟩

/-- The integer on display in a base is read back in this base. -/
theorem parse_render (r : Radix) (n : Int64) : r.parse (r.render n) = .ok n := by
  rw [parse, parse?_render]

/-- **What a programmer expression comes to does not depend on the base that it is written in.**
Both texts are converted to one text in base ten and have one outcome. Their displays both read
`Error`, or are the same integer in their own bases. -/
theorem rewritten_agrees {r : Radix} {s t : Text} (h : Rewritten r s t) :
    (∃ converted, r.toBaseTen t = .ok converted ∧ dec.toBaseTen s = .ok converted) ∧
    programmerOutcome r t = programmerOutcome dec s ∧
    (programmerDisplay r t = Display.error ↔ programmerDisplay dec s = Display.error) ∧
    (programmerDisplay dec s ≠ Display.error → ∃ n : Int64,
      r.parse (programmerDisplay r t) = .ok n ∧ dec.parse (programmerDisplay dec s) = .ok n) := by
  obtain ⟨converted, hs, ht⟩ := h.toBaseTen_eq
  have houtcome : programmerOutcome r t = programmerOutcome dec s := by
    rw [programmerOutcome, programmerOutcome, programmerValue, programmerValue, hs, ht]
  refine ⟨⟨converted, ht, hs⟩, houtcome, ?_, fun hne => ?_⟩
  · rw [(programmerDisplay_tells r t).other, (programmerDisplay_tells dec s).other, houtcome]
  · rw [Ne, (programmerDisplay_tells dec s).other, not_not] at hne
    obtain ⟨x, -, -, hvalue, -⟩ := hne
    rw [programmerDisplay, programmerDisplay, houtcome, hvalue]
    exact ⟨_, parse_render r _, parse_render dec _⟩

/-- `255*(1-127)` in base sixteen, with zeros before a digit and letters of both cases. -/
theorem rewritten_agrees_hex :
    Rewritten hex "255*(1-127)".toList "fF*(001-7F)".toList ∧
    programmerOutcome hex "fF*(001-7F)".toList = programmerOutcome dec "255*(1-127)".toList ∧
    programmerDisplay hex "fF*(001-7F)".toList = "-7D82".toList ∧
    programmerDisplay dec "255*(1-127)".toList = "-32130".toList ∧
    ∃ n, hex.parse "-7D82".toList = .ok n ∧ dec.parse "-32130".toList = .ok n := by
  have hfirst : SameRun hex "255".toList "fF".toList :=
    .digits (by decide) (by decide) (by decide) (by decide)
  have hsecond : SameRun hex "1".toList "001".toList :=
    .digits (by decide) (by decide) (by decide) (by decide)
  have hthird : SameRun hex "127".toList "7F".toList :=
    .digits (by decide) (by decide) (by decide) (by decide)
  have hrewritten : Rewritten hex "255*(1-127)".toList "fF*(001-7F)".toList :=
    .operator hfirst (by decide) <| .operator .empty (by decide) <|
      .operator hsecond (by decide) <| .operator hthird (by decide) <| .run .empty
  obtain ⟨-, houtcome, -, hinteger⟩ := rewritten_agrees hrewritten
  have hhex : programmerDisplay hex "fF*(001-7F)".toList = "-7D82".toList := by decide +kernel
  have hdec : programmerDisplay dec "255*(1-127)".toList = "-32130".toList := by decide +kernel
  rw [hhex, hdec] at hinteger
  exact ⟨hrewritten, houtcome, hhex, hdec, hinteger (by decide)⟩

end Calculator.Radix
