import Calculator.Proofs.Radix.Runs

/-!
# Displayed integers as operands

What the programmer calculator shows is written into the next expression. There a minus sign is an
operator, and the digits after it are a literal of their own. The magnitude of an integer is again
an integer with 64 bits, except for that of the least one. So every displayed integer can be used in
the next expression, and means itself there, but the least one cannot.
-/

namespace Calculator.Radix

variable {r : Radix} {before after : Text} {n : Int64}

/-- Before a text that starts with an operator, or with nothing, what is converted is on its own. -/
theorem toBaseTen_append_after (r : Radix) (s : Text)
    (hafter : after.head?.all isOperator = true) :
    r.toBaseTen (s ++ after) = do
      let converted ← r.toBaseTen s
      let rest ← r.toBaseTen after
      return converted ++ rest := by
  cases after with
  | nil =>
    rw [List.append_nil, toBaseTen_nil]
    simp only [ok_bind, List.append_nil, bind_pure]
  | cons c after =>
    have hc : isOperator c = true := hafter
    rw [toBaseTen_split r hc s after, ← List.nil_append (c :: after), toBaseTen_split r hc [] after,
      toBaseTen_nil]
    simp only [ok_bind, bind_assoc, pure_bind, List.nil_append]

/-- After a text that ends with an operator, or is empty, what is converted is on its own. -/
theorem toBaseTen_append_before (r : Radix) (s : Text)
    (hbefore : before.getLast?.all isOperator = true) :
    r.toBaseTen (before ++ s) = do
      let passed ← r.toBaseTen before
      let converted ← r.toBaseTen s
      return passed ++ converted := by
  induction before using List.reverseRecOn with
  | nil =>
    rw [List.nil_append, toBaseTen_nil]
    simp only [ok_bind, List.nil_append, bind_pure]
  | append_singleton before c _ =>
    have hc : isOperator c = true := by simpa using hbefore
    rw [List.append_assoc, List.singleton_append, toBaseTen_split r hc before s,
      toBaseTen_split r hc before [], toBaseTen_nil]
    simp only [ok_bind, bind_assoc, pure_bind, List.append_assoc, List.cons_append, List.nil_append]

/-- Digits of an integer that has more than 64 bits are no literal. -/
theorem convertRun_of_large {digits : Text} (h : r.IsDigits digits)
    (hlarge : Int64.maxValue.toInt < r.positional digits) :
    r.convertRun digits = .error (.literal digits r.base) := by
  have hparse : r.parse? digits = none := by
    rw [Option.eq_none_iff_forall_ne_some]
    intro n hn
    have hvalue := ((parse?_eq_some_iff.mp hn).of_free h.free).2
    have hle := n.toInt_le
    omega
  rw [convertRun, if_neg (by simp [h.1]), parse, hparse]
  rfl

/-- The digits after the sign, if there is one, decide on the conversion of a displayed integer. -/
theorem toBaseTen_render_eq (r : Radix) (n : Int64) :
    r.toBaseTen (r.render n) =
      (r.convertRun (r.digitsOf n.toInt.natAbs)).map ((if n < 0 then ['-'] else []) ++ ·) := by
  have hdigits := (r.isWritten_digitsOf n.toInt.natAbs).isDigits
  rw [render_eq, toBaseTen_append_before r _ (by split <;> rfl),
    toBaseTen_of_free r hdigits.free]
  split <;> rfl

/-- The integers but the least one have a magnitude with 64 bits. -/
theorem natAbs_le_iff : (n.toInt.natAbs : Int) ≤ Int64.maxValue.toInt ↔ n ≠ Int64.minValue := by
  have hle := n.toInt_le
  have hge := n.minValue_le_toInt
  rw [Int64.toInt_maxValue] at hle ⊢
  rw [Int64.toInt_minValue] at hge
  rw [Ne, ← Int64.toInt_inj, Int64.toInt_minValue]
  omega

/-- A displayed integer other than the least one is converted to its decimal text. -/
theorem toBaseTen_render (r : Radix) (hn : n ≠ Int64.minValue) :
    r.toBaseTen (r.render n) = .ok (dec.render n) := by
  have hle := natAbs_le_iff.mpr hn
  obtain ⟨m, hm⟩ : ∃ m : Int64, m.toInt = n.toInt.natAbs := by
    rw [Int64.toInt_maxValue] at hle
    exact ⟨.ofInt n.toInt.natAbs, Int64.toInt_ofInt_of_le (by omega) (by omega)⟩
  have hvalue : m.toInt = r.positional (r.digitsOf n.toInt.natAbs) := by
    rw [hm, positional_digitsOf]
  have htext : Text.ofInt64 m = dec.digitsOf n.toInt.natAbs := by
    rw [ofInt64_eq_render, render_of_nonneg dec (by omega), hm, Int.natAbs_natCast]
  rw [toBaseTen_render_eq, convertRun_of_isDigits (r.isWritten_digitsOf _).isDigits hvalue, htext,
    render_eq]
  rfl

/-- The least integer is displayed with digits that are no literal. -/
theorem toBaseTen_render_least (r : Radix) :
    r.toBaseTen (r.render Int64.minValue) = .error (.literal (r.digitsOf (2 ^ 63)) r.base) := by
  have hlarge : Int64.maxValue.toInt < r.positional (r.digitsOf (2 ^ 63)) := by
    rw [positional_digitsOf, Int64.toInt_maxValue]
    decide
  rw [toBaseTen_render_eq, show Int64.minValue.toInt.natAbs = 2 ^ 63 from rfl,
    convertRun_of_large (r.isWritten_digitsOf _).isDigits hlarge]
  rfl

/-- **A displayed integer can be used again exactly if it is not the least one.** Every integer but
the least one is converted back to its own decimal text; the digits of the least one are refused.
What the calculator displays for a value is such a text, and wherever it is written between
operators or at an end of the next expression, it is converted on its own. -/
theorem toBaseTen_render_iff (r : Radix) :
    (∀ n : Int64, r.toBaseTen (r.render n) = .ok (toString n.toInt).toList ↔
      n ≠ Int64.minValue) ∧
    r.toBaseTen (r.render Int64.minValue) = .error (.literal (r.digitsOf (2 ^ 63)) r.base) ∧
    ∀ s, programmerDisplay r s ≠ Display.error → ∃ n : Int64,
      programmerDisplay r s = r.render n ∧
      ∀ before after : Text, before.getLast?.all isOperator = true →
        after.head?.all isOperator = true →
        r.toBaseTen (before ++ programmerDisplay r s ++ after) = do
          let passed ← r.toBaseTen before
          let operand ← r.toBaseTen (r.render n)
          let rest ← r.toBaseTen after
          return passed ++ operand ++ rest := by
  refine ⟨fun n => ⟨?_, fun hn => ?_⟩, toBaseTen_render_least r, fun s hs => ?_⟩
  · rintro hok rfl
    cases (toBaseTen_render_least r).symm.trans hok
  · rw [toBaseTen_render r hn, render_dec]
  · rw [Ne, (programmerDisplay_tells r s).other, not_not] at hs
    obtain ⟨x, -, -, hvalue, -⟩ := hs
    have hdisplay : programmerDisplay r s = r.render (Double.ofFloat x).truncate := by
      rw [programmerDisplay, hvalue, Display.ofOutcomeIn]
    refine ⟨_, hdisplay, fun before after hbefore hafter => ?_⟩
    rw [toBaseTen_append_after r _ hafter, toBaseTen_append_before r _ hbefore, hdisplay]
    simp only [bind_assoc, pure_bind]

/-- A value above all integers with 64 bits is displayed as the greatest one, which is reused in the
middle of an expression. -/
theorem toBaseTen_render_greatest :
    programmerDisplay hex "7FFFFFFFFFFFFFFF*2".toList = "7FFFFFFFFFFFFFFF".toList ∧
    hex.toBaseTen "1-(7FFFFFFFFFFFFFFF)".toList = .ok "1-(9223372036854775807)".toList := by
  have hdisplay : programmerDisplay hex "7FFFFFFFFFFFFFFF*2".toList =
      "7FFFFFFFFFFFFFFF".toList := by
    decide +kernel
  obtain ⟨hiff, -, hreuse⟩ := toBaseTen_render_iff hex
  obtain ⟨n, hn, hplace⟩ := hreuse "7FFFFFFFFFFFFFFF*2".toList (by rw [hdisplay]; decide)
  have hgreatest : n = Int64.maxValue := by
    have hparse := parse_render hex n
    rw [← hn, hdisplay] at hparse
    have hread : hex.parse "7FFFFFFFFFFFFFFF".toList = .ok Int64.maxValue := by decide +kernel
    exact (Except.ok.inj (hread.symm.trans hparse)).symm
  have hconverted := hplace "1-(".toList ")".toList (by decide) (by decide)
  rw [hdisplay, hgreatest, (hiff Int64.maxValue).mpr (by decide)] at hconverted
  exact ⟨hdisplay, hconverted⟩

/-- The least integer is displayed for a value below all integers with 64 bits, and is read where a
literal may have a sign. In the next expression it is refused. -/
theorem toBaseTen_render_saturated :
    programmerDisplay dec "-9223372036854775807*2".toList = "-9223372036854775808".toList ∧
    dec.render Int64.minValue = "-9223372036854775808".toList ∧
    dec.parse "-9223372036854775808".toList = .ok Int64.minValue ∧
    (∀ t, dec.toBaseTen "-9223372036854775808".toList ≠ .ok t) ∧
    programmerDisplay dec "-9223372036854775808+1".toList = Display.error := by
  have hrefused : dec.toBaseTen "-9223372036854775808".toList =
      .error (.literal "9223372036854775808".toList 10) := by decide +kernel
  refine ⟨by decide +kernel, by decide +kernel, by decide +kernel, ?_, by decide +kernel⟩
  rintro t ht
  cases hrefused.symm.trans ht

end Calculator.Radix
