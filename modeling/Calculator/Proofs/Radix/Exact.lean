import Calculator.Proofs.Expression.Evaluation
import Calculator.Proofs.Number.Integers
import Calculator.Proofs.Radix.Runs

/-!
# Exact arithmetic in a base

Expressions of integers with sums, differences and products have an exact value, and a grammar of
their own in every base. As long as no literal and nothing that is computed on the way is beyond
`2^53`, no double is rounded, so the programmer calculator displays the exact value.
-/

namespace Calculator

open Expression (Level Derives spaces)

/-- The operators under which the integers are closed. -/
inductive IntegerOperator where
  | add
  | subtract
  | multiply
  deriving DecidableEq, Repr

namespace IntegerOperator

/-- The exact value of an operator. -/
def apply : IntegerOperator → Int → Int → Int
  | add, n, k => n + k
  | subtract, n, k => n - k
  | multiply, n, k => n * k

/-- The operator on doubles. -/
def operator : IntegerOperator → Operator
  | add => .add
  | subtract => .subtract
  | multiply => .multiply

end IntegerOperator

/-- An expression of integers as it is written, but for its base. -/
inductive IntegerExpression where
  /-- An integer in digits. -/
  | literal (n : Nat)
  /-- A sign `+` before an operand. -/
  | plus (operand : IntegerExpression)
  /-- A sign `-` before an operand. -/
  | minus (operand : IntegerExpression)
  /-- An expression in brackets. -/
  | group (inner : IntegerExpression)
  /-- An operator between two operands. -/
  | binary (operator : IntegerOperator) (left right : IntegerExpression)
  deriving DecidableEq, Repr

namespace IntegerExpression

/-- The exact value of an expression. -/
def value : IntegerExpression → Int
  | literal n => n
  | plus e => e.value
  | minus e => -e.value
  | group e => e.value
  | binary op l r => op.apply l.value r.value

/-- All literals and everything that is computed on the way are within a bound. -/
def StaysWithin (bound : Nat) : IntegerExpression → Prop
  | literal n => n ≤ bound
  | plus e | minus e | group e => e.StaysWithin bound
  | binary op l r =>
    l.StaysWithin bound ∧ r.StaysWithin bound ∧ (op.apply l.value r.value).natAbs ≤ bound

instance decidableStaysWithin (bound : Nat) :
    (e : IntegerExpression) → Decidable (e.StaysWithin bound)
  | literal n => inferInstanceAs (Decidable (n ≤ bound))
  | plus e | minus e | group e => decidableStaysWithin bound e
  | binary _ l r =>
    have := decidableStaysWithin bound l
    have := decidableStaysWithin bound r
    inferInstanceAs (Decidable (_ ∧ _ ∧ _))

/-- The tree on which doubles are computed. -/
def tree : IntegerExpression → Expression
  | literal n => .number ⟨n, 0⟩
  | plus e => .plus e.tree
  | minus e => .minus e.tree
  | group e => .group e.tree
  | binary op l r => .binary op.operator l.tree r.tree

/-- A text writes an expression in a base, with all brackets closed. The operators of one level are
joined to the left. -/
inductive Writes (r : Radix) : Level → Text → IntegerExpression → Prop
  /-- A term alone is an expression. -/
  | ofTerm {s e} (h : Writes r .term s e) : Writes r .sum s e
  /-- An expression goes on with an adding operator and a term. -/
  | addition {s t e f op} (hop : op.operator.JoinsTerms) (hl : Writes r .sum s e)
      (hr : Writes r .term t f) : Writes r .sum (s ++ op.operator.sign :: t) (.binary op e f)
  /-- A factor alone is a term. -/
  | ofFactor {s e} (h : Writes r .factor s e) : Writes r .term s e
  /-- A term goes on with a multiplication and a factor. -/
  | product {s t e f op} (hop : op.operator.JoinsFactors .programmer) (hl : Writes r .term s e)
      (hr : Writes r .factor t f) : Writes r .term (s ++ op.operator.sign :: t) (.binary op e f)
  /-- A sign before a factor. -/
  | plus {s e} (h : Writes r .factor s e) : Writes r .factor ('+' :: s) (.plus e)
  /-- A sign before a factor. -/
  | minus {s e} (h : Writes r .factor s e) : Writes r .factor ('-' :: s) (.minus e)
  /-- An expression in brackets. -/
  | group {s e} (h : Writes r .sum s e) : Writes r .factor ('(' :: s ++ [')']) (.group e)
  /-- Digits of either case, with any zeros before them. -/
  | literal {s} (h : r.IsDigits s) : Writes r .factor s (.literal (r.positional s))

/-! ## Values -/

/-- The exact value of an expression is within the bound as well. -/
theorem StaysWithin.natAbs_le {bound : Nat} {e : IntegerExpression} (h : e.StaysWithin bound) :
    e.value.natAbs ≤ bound := by
  induction e with
  | literal n => exact h
  | plus e ih | group e ih => exact ih h
  | minus e ih =>
    rw [value, Int.natAbs_neg]
    exact ih h
  | binary op l r _ _ => exact h.2.2

/-- By induction on the expression: what is computed with doubles is the exact value. -/
theorem StaysWithin.isInteger {e : IntegerExpression} (h : e.StaysWithin (2 ^ 53)) :
    Double.IsInteger e.tree.value e.value := by
  induction e with
  | literal n => exact Double.isInteger_toFloat h
  | plus e ih | group e ih => exact ih h
  | minus e ih => exact (ih h).neg
  | binary op l r ihl ihr =>
    obtain ⟨hl, hr, hle⟩ := h
    cases op with
    | add => exact (ihl hl).add (ihr hr) hle
    | subtract => exact (ihl hl).sub (ihr hr) hle
    | multiply => exact (ihl hl).mul (ihr hr) hle

/-! ## Conversion to base ten -/

theorem toBaseTen_append {r : Radix} {s t s' t' : Text} {c : Char} (hc : c ∈ Radix.operators)
    (hs : r.toBaseTen s = .ok s') (ht : r.toBaseTen t = .ok t') :
    r.toBaseTen (s ++ c :: t) = .ok (s' ++ c :: t') := by
  rw [Radix.toBaseTen_split r (Radix.isOperator_iff.mpr hc), hs, ht]
  rfl

/-- A sign or an opening bracket stays before what is converted. -/
theorem toBaseTen_cons {r : Radix} {s s' : Text} {c : Char} (hc : c ∈ Radix.operators)
    (hs : r.toBaseTen s = .ok s') : r.toBaseTen (c :: s) = .ok (c :: s') :=
  toBaseTen_append (s := []) hc rfl hs

/-- Digits of an integer up to `2^53` are converted to its decimal text, which is its numeral. -/
theorem exists_toBaseTen_literal {r : Radix} {s : Text} (h : r.IsDigits s)
    (hle : r.positional s ≤ 2 ^ 53) :
    ∃ t, r.toBaseTen s = .ok t ∧ Decimal.IsNumeral t ∧
      Decimal.ofNumeral t = ⟨r.positional s, 0⟩ := by
  have hn : (Int64.ofInt (r.positional s)).toInt = r.positional s :=
    Int64.toInt_ofInt_of_le (by omega) (by omega)
  have htext : Text.ofInt64 (Int64.ofInt (r.positional s)) =
      Text.signed false ⟨r.positional s, 0⟩ := Text.ofInt64_eq hn
  refine ⟨_, ?_, Decimal.isNumeral_text _, Decimal.ofNumeral_text _⟩
  rw [Radix.toBaseTen_of_free r h.free, Radix.convertRun_of_isDigits h hn, htext]
  rfl

/-- By induction on how it is written: an expression within the bound is converted to a text that
the grammar in base ten derives with its tree. -/
theorem Writes.exists_derives {r : Radix} {level : Level} {s : Text} {e : IntegerExpression}
    (h : Writes r level s e) (hbound : e.StaysWithin (2 ^ 53)) :
    ∃ t, r.toBaseTen s = .ok t ∧ Derives .programmer false level t e.tree := by
  have hsign (op : IntegerOperator) : op.operator.sign ∈ Radix.operators := by
    cases op <;> decide
  induction h with
  | ofTerm _ ih =>
    obtain ⟨t, ht, hderives⟩ := ih hbound
    exact ⟨t, ht, .ofTerm hderives⟩
  | @addition s t e f op hop _ _ ihl ihr =>
    obtain ⟨s', hs, hl⟩ := ihl hbound.1
    obtain ⟨t', ht, hr⟩ := ihr hbound.2.1
    have hderives := Derives.addition 0 hop hl hr
    rw [spaces, List.replicate_zero, List.append_nil] at hderives
    exact ⟨_, toBaseTen_append (hsign op) hs ht, hderives⟩
  | ofFactor _ ih =>
    obtain ⟨t, ht, hderives⟩ := ih hbound
    exact ⟨t, ht, .ofFactor hderives⟩
  | @product s t e f op hop _ _ ihl ihr =>
    obtain ⟨s', hs, hl⟩ := ihl hbound.1
    obtain ⟨t', ht, hr⟩ := ihr hbound.2.1
    have hderives := Derives.product 0 hop hl hr
    rw [spaces, List.replicate_zero, List.append_nil] at hderives
    exact ⟨_, toBaseTen_append (hsign op) hs ht, hderives⟩
  | plus _ ih =>
    obtain ⟨t, ht, hderives⟩ := ih hbound
    exact ⟨_, toBaseTen_cons (by decide) ht, .plus 0 hderives⟩
  | minus _ ih =>
    obtain ⟨t, ht, hderives⟩ := ih hbound
    exact ⟨_, toBaseTen_cons (by decide) ht, .minus 0 hderives⟩
  | group _ ih =>
    obtain ⟨t, ht, hderives⟩ := ih hbound
    have hgroup : Derives .programmer false .factor _ _ := .group 0 0 hderives
    rw [spaces, List.replicate_zero, List.append_nil] at hgroup
    exact ⟨_, toBaseTen_cons (by decide) (toBaseTen_append (by decide) ht rfl), hgroup⟩
  | literal h =>
    obtain ⟨t, ht, hnumeral, hvalue⟩ := exists_toBaseTen_literal h hbound
    rw [tree, ← hvalue]
    exact ⟨t, ht, .number 0 hnumeral⟩

/-! ## Displays -/

/-- **Integer arithmetic up to `2^53` is exact.** An expression of a base in which no literal and no
value on the way goes beyond `2^53` is displayed as its exact value, written in the base. -/
theorem programmerDisplay_of_writes {r : Radix} {s : Text} {e : IntegerExpression}
    (hs : Writes r .sum s e) (hnest : e.tree.nesting ≤ 255) (hbound : e.StaysWithin (2 ^ 53)) :
    ∃ n : Int64, n.toInt = e.value ∧ programmerDisplay r s = r.render n := by
  obtain ⟨t, ht, hderives⟩ := hs.exists_derives hbound
  have hinteger := hbound.isInteger
  have hle := hbound.natAbs_le
  refine ⟨Int64.ofInt e.value, Int64.toInt_ofInt_of_le (by omega) (by omega), ?_⟩
  have heval : evaluate .programmer t = .ok e.tree.value :=
    Expression.evaluate_of_derives hderives.atEnd (Nat.lt_succ_of_le hnest)
  obtain ⟨negative, hfinite, -⟩ := hinteger.eq_finite
  have houtcome : programmerOutcome r s = .value e.tree.value := by
    rw [programmerOutcome, programmerValue, ht, ok_bind, heval]
    simp only [Except.mapError, Outcome.ofResult, Outcome.ofFloat, hfinite]
  rw [programmerDisplay, houtcome, Display.ofOutcomeIn, hinteger.truncate_eq hle]

/-- The greatest of these integers and a negative zero, in digits of both cases. -/
theorem programmerDisplay_of_greatest :
    let s : Text := "1fFFffFFffFFff+01+0*-1"
    let e : IntegerExpression := .binary .add (.binary .add (.literal (2 ^ 53 - 1)) (.literal 1))
      (.binary .multiply (.literal 0) (.minus (.literal 1)))
    Writes .hex .sum s e ∧ e.tree.nesting ≤ 255 ∧ e.StaysWithin (2 ^ 53) ∧ e.value = 2 ^ 53 ∧
      programmerDisplay .hex s = "20000000000000".toList := by
  intro s e
  have hliteral {digits : Text} {n : Nat} (hdigits : Radix.hex.IsDigits digits)
      (hn : Radix.hex.positional digits = n) : Writes .hex .factor digits (.literal n) :=
    hn ▸ .literal hdigits
  have hgreatest : Writes .hex .factor "1fFFffFFffFFff".toList (.literal (2 ^ 53 - 1)) :=
    hliteral (by decide) (by decide)
  have hone : Writes .hex .factor "01".toList (.literal 1) := hliteral (by decide) (by decide)
  have hzero : Writes .hex .factor "0".toList (.literal 0) := hliteral (by decide) (by decide)
  have hminus : Writes .hex .factor "-1".toList (.minus (.literal 1)) :=
    .minus (hliteral (by decide) (by decide))
  have hadd : IntegerOperator.add.operator.JoinsTerms := .inl rfl
  have hmultiply : IntegerOperator.multiply.operator.JoinsFactors .programmer := .inl rfl
  have hsum : Writes .hex .sum "1fFFffFFffFFff+01".toList
      (.binary .add (.literal (2 ^ 53 - 1)) (.literal 1)) :=
    .addition hadd (.ofTerm (.ofFactor hgreatest)) (.ofFactor hone)
  have hproduct : Writes .hex .term "0*-1".toList
      (.binary .multiply (.literal 0) (.minus (.literal 1))) :=
    .product hmultiply (.ofFactor hzero) hminus
  have hs : Writes .hex .sum s e := .addition hadd hsum hproduct
  have hnest : e.tree.nesting ≤ 255 := by decide
  have hbound : e.StaysWithin (2 ^ 53) := by decide
  obtain ⟨n, hn, hdisplay⟩ := programmerDisplay_of_writes hs hnest hbound
  have hvalue : e.value = 2 ^ 53 := by decide
  obtain rfl : n = Int64.ofInt (2 ^ 53) := by
    rw [← Int64.toInt_inj, hn, hvalue]
    decide
  refine ⟨hs, hnest, hbound, hvalue, ?_⟩
  rw [hdisplay]
  decide

end IntegerExpression

end Calculator
