import Calculator.Proofs.Except
import Calculator.Proofs.Expression.Grammar

/-!
# What the readers do

Each reader is described once, by what a successful reading found and what it left. All later
arguments about the readers go through these descriptions and not through their definitions. The
bound on the number of operators of a chain is shown to play no part.
-/

namespace Calculator.Expression

variable {g : Grammar} {operator? : Char → Option Operator} {operand : Text → Reading}

/-! ## The leaves -/

theorem isNumeric_space : isNumeric ' ' = false := by decide

/-- A text on which no number goes on. -/
def EndsNumber (s : Text) : Prop := ∀ c t, s = c :: t → isNumeric c = false

theorem EndsNumber.nil : EndsNumber [] := by
  intro c t h
  cases h

theorem EndsNumber.cons {c : Char} (hc : isNumeric c = false) (t : Text) : EndsNumber (c :: t) := by
  rintro d u ⟨⟩
  exact hc

theorem EndsNumber.append {s t : Text} (hs : EndsNumber s) (ht : EndsNumber t) :
    EndsNumber (s ++ t) := by
  cases s with
  | nil => exact ht
  | cons c s => exact .cons (hs c s rfl) _

/-- A number that has been read is a numeral at the start of the text. -/
theorem readNumber_eq_ok {s rest : Text} {e : Expression} (h : readNumber s = .ok (e, rest)) :
    ∃ u, Decimal.IsNumeral u ∧ s = u ++ rest ∧ e = .number (.ofNumeral u) := by
  unfold readNumber at h
  dsimp only at h
  split at h
  · rename_i d hparse
    obtain ⟨hnumeral, rfl⟩ := Decimal.parse?_eq_some_iff.mp hparse
    obtain ⟨rfl, rfl⟩ := Prod.mk.injEq .. ▸ Except.ok.injEq .. ▸ h
    exact ⟨_, hnumeral, List.takeWhile_append_dropWhile.symm, rfl⟩
  · cases h

/-- Digits and points are separated from a text on which no number goes on. -/
theorem EndsNumber.takeWhile_append {u rest : Text} (hu : ∀ c ∈ u, isNumeric c = true)
    (hrest : EndsNumber rest) :
    (u ++ rest).takeWhile isNumeric = u ∧ (u ++ rest).dropWhile isNumeric = rest := by
  have htake : rest.takeWhile isNumeric = [] ∧ rest.dropWhile isNumeric = rest := by
    cases rest with
    | nil => exact ⟨rfl, rfl⟩
    | cons c t => simp [hrest c t rfl]
  rw [List.takeWhile_append_of_pos hu, List.dropWhile_append_of_pos hu, htake.1, htake.2]
  exact ⟨List.append_nil u, rfl⟩

/-- A numeral is read up to its end, where no number goes on. -/
theorem readNumber_append {u rest : Text} (hu : Decimal.IsNumeral u) (hrest : EndsNumber rest) :
    readNumber (u ++ rest) = .ok (.number (.ofNumeral u), rest) := by
  obtain ⟨hrun, hleft⟩ := hrest.takeWhile_append hu.numeric
  have hparse := Decimal.parse?_eq_some_iff.mpr ⟨hu, rfl⟩
  simp [readNumber, hrun, hleft, hparse]

/-- The words that can be read, each with its tree. -/
theorem readWord_eq_ok {s rest : Text} {e : Expression} (h : readWord g s = .ok (e, rest)) :
    g = .scientific ∧ ((s = ['N', 'a', 'N'] ++ rest ∧ e = .undefined) ∨
      (s = ['i', 'n', 'f'] ++ rest ∧ e = .infinity)) := by
  unfold readWord at h
  split at h <;> cases h <;> simp

/-! ## Factors -/

/-- What a factor may be once the spaces before it are skipped, and what is left after it. -/
inductive FactorRead (g : Grammar) (factor : Text → Reading) : Text → Expression → Text → Prop
  | plus {t e rest} (h : factor t = .ok (e, rest)) :
      FactorRead g factor ('+' :: t) (.plus e) rest
  | minus {t e rest} (h : factor t = .ok (e, rest)) :
      FactorRead g factor ('-' :: t) (.minus e) rest
  | group {t e rest} (h : readSum g factor t = .ok (e, rest)) :
      FactorRead g factor ('(' :: t) (.group e) (skipClosing rest)
  | number {u rest} (h : Decimal.IsNumeral u) :
      FactorRead g factor (u ++ rest) (.number (.ofNumeral u)) rest
  | undefined {rest} (hg : g = .scientific) :
      FactorRead g factor (['N', 'a', 'N'] ++ rest) .undefined rest
  | infinity {rest} (hg : g = .scientific) :
      FactorRead g factor (['i', 'n', 'f'] ++ rest) .infinity rest

/-- Every successful reading of a factor is one of the six kinds. -/
theorem readFactor_eq_ok {depth : Nat} {s rest : Text} {e : Expression}
    (h : readFactor g (depth + 1) s = .ok (e, rest)) :
    FactorRead g (readFactor g depth) (skipSpaces s) e rest := by
  unfold readFactor at h
  cases hs : skipSpaces s with
  | nil =>
    rw [hs] at h
    cases h
  | cons c t =>
    simp only [hs] at h
    split at h
    · rename_i hc
      subst hc
      obtain ⟨⟨e', rest'⟩, hread, heq⟩ := bind_eq_ok_iff.mp h
      cases heq
      exact .plus hread
    split at h
    · rename_i hc
      subst hc
      obtain ⟨⟨e', rest'⟩, hread, heq⟩ := bind_eq_ok_iff.mp h
      cases heq
      exact .minus hread
    split at h
    · rename_i hc
      subst hc
      obtain ⟨⟨e', rest'⟩, hread, heq⟩ := bind_eq_ok_iff.mp h
      cases heq
      exact .group hread
    split at h
    · obtain ⟨u, hu, htext, rfl⟩ := readNumber_eq_ok h
      rw [htext]
      exact .number hu
    · obtain ⟨hg, ⟨htext, rfl⟩ | ⟨htext, rfl⟩⟩ := readWord_eq_ok h
      · rw [htext]
        exact .undefined hg
      · rw [htext]
        exact .infinity hg

/-! ## Chains of operands -/

/-- A reader that takes at least one character away. -/
def Shortens (operand : Text → Reading) : Prop :=
  ∀ s e rest, operand s = .ok (e, rest) → rest.length < s.length

theorem chainFrom_length_le (hop : Shortens operand) {limit : Nat} {left e : Expression}
    {s rest : Text} (h : chainFrom operator? operand limit left s = .ok (e, rest)) :
    rest.length ≤ s.length := by
  induction limit generalizing left s with
  | zero =>
    cases h
    exact Nat.le_refl _
  | succ limit ih =>
    have hskip := skipSpaces_length_le s
    simp only [chainFrom] at h
    split at h
    · cases h
      exact Nat.zero_le _
    · rename_i c t hs
      rw [hs, List.length_cons] at hskip
      split at h
      · cases h
        exact hskip
      · obtain ⟨⟨right, rest'⟩, hread, hchain⟩ := bind_eq_ok_iff.mp h
        have hlt := hop _ _ _ hread
        have hle : rest.length ≤ rest'.length := ih hchain
        omega

theorem chain_shortens (hop : Shortens operand) : Shortens (chain operator? operand) := by
  intro s e rest h
  obtain ⟨⟨left, rest'⟩, hread, hchain⟩ := bind_eq_ok_iff.mp h
  have hlt := hop _ _ _ hread
  have hle := chainFrom_length_le hop hchain
  exact Nat.lt_of_le_of_lt hle hlt

theorem skipClosing_length_le (s : Text) : (skipClosing s).length ≤ s.length := by
  have hskip := skipSpaces_length_le s
  unfold skipClosing
  split
  · rename_i rest hs
    rw [hs, List.length_cons] at hskip
    omega
  · exact hskip

theorem readFactor_shortens (g : Grammar) (depth : Nat) : Shortens (readFactor g depth) := by
  induction depth with
  | zero =>
    intro s e rest h
    cases h
  | succ depth ih =>
    intro s e rest h
    have hskip := skipSpaces_length_le s
    have hread := readFactor_eq_ok h
    generalize skipSpaces s = t at hread hskip
    cases hread with
    | plus hread | minus hread =>
      have hlt := ih _ _ _ hread
      rw [List.length_cons] at hskip
      omega
    | group hread =>
      rename_i r
      have hlt := chain_shortens (chain_shortens ih) _ _ _ hread
      have hle := skipClosing_length_le r
      rw [List.length_cons] at hskip
      omega
    | number hu =>
      rename_i u
      obtain ⟨c, hc, _⟩ := hu.digit
      have hpos := List.length_pos_of_mem hc
      rw [List.length_append] at hskip
      omega
    | undefined hg | infinity hg =>
      simp only [List.length_append, List.length_cons, List.length_nil] at hskip
      omega

theorem readTerm_shortens (g : Grammar) (depth : Nat) :
    Shortens (readTerm g (readFactor g depth)) :=
  chain_shortens (readFactor_shortens g depth)

/-- Two bounds on the number of operators that both exceed the length of the text agree. -/
theorem chainFrom_congr (hop : Shortens operand) {m n : Nat} {left : Expression} {s : Text}
    (hm : s.length < m) (hn : s.length < n) :
    chainFrom operator? operand m left s = chainFrom operator? operand n left s := by
  induction m generalizing n left s with
  | zero => omega
  | succ m ih =>
    obtain ⟨n, rfl⟩ : ∃ n', n = n' + 1 := ⟨n - 1, by omega⟩
    have hskip := skipSpaces_length_le s
    simp only [chainFrom]
    split
    · rfl
    · rename_i c t hs
      rw [hs, List.length_cons] at hskip
      split
      · rfl
      · cases hread : operand t with
        | error stop => rfl
        | ok reading =>
          obtain ⟨right, rest⟩ := reading
          have hlt := hop _ _ _ hread
          have hrest : rest.length < m ∧ rest.length < n := by omega
          exact ih hrest.1 hrest.2

/-- Reads operators and operands on from `left`, as many as there are. -/
def chainOn (operator? : Char → Option Operator) (operand : Text → Reading) (left : Expression)
    (s : Text) : Reading :=
  chainFrom operator? operand (s.length + 1) left s

theorem chain_eq (s : Text) :
    chain operator? operand s =
      operand s >>= fun (left, rest) => chainOn operator? operand left rest := rfl

/-- A chain ends with its text. -/
theorem chainOn_of_nil {left : Expression} {s : Text} (hs : skipSpaces s = []) :
    chainOn operator? operand left s = .ok (left, []) := by
  simp [chainOn, chainFrom, hs]

/-- A chain ends before a character that is no operator of its level. -/
theorem chainOn_of_none {left : Expression} {s t : Text} {c : Char}
    (hs : skipSpaces s = c :: t) (hc : operator? c = none) :
    chainOn operator? operand left s = .ok (left, c :: t) := by
  simp [chainOn, chainFrom, hs, hc]

/-- A chain goes on with an operator and the operand after it. -/
theorem chainOn_of_some (hop : Shortens operand) (left : Expression) {right : Expression}
    {s t rest : Text} {c : Char} {op : Operator} (hs : skipSpaces s = c :: t)
    (hc : operator? c = some op)
    (hread : operand t = .ok (right, rest)) :
    chainOn operator? operand left s = chainOn operator? operand (.binary op left right) rest := by
  have hskip := skipSpaces_length_le s
  rw [hs, List.length_cons] at hskip
  have hlt := hop _ _ _ hread
  have hcongr : chainFrom operator? operand s.length (.binary op left right) rest =
      chainOn operator? operand (.binary op left right) rest :=
    chainFrom_congr hop (by omega) (Nat.lt_succ_self rest.length)
  simpa [chainOn, chainFrom, hs, hc, hread, Bind.bind, Except.bind] using hcongr

/-- A chain fails with the operand after its operator. -/
theorem chainOn_of_error {left : Expression} {s t : Text} {c : Char} {op : Operator} {stop : Stop}
    (hs : skipSpaces s = c :: t) (hc : operator? c = some op) (hread : operand t = .error stop) :
    chainOn operator? operand left s = .error stop := by
  simp [chainOn, chainFrom, hs, hc, hread, Bind.bind, Except.bind]

/-- Spaces before the first operator make no difference. -/
theorem chainOn_skipSpaces (operator? : Char → Option Operator) (hop : Shortens operand)
    (left : Expression) {s t : Text} (h : skipSpaces s = skipSpaces t) :
    chainOn operator? operand left s = chainOn operator? operand left t := by
  cases hs : skipSpaces s with
  | nil => rw [chainOn_of_nil hs, chainOn_of_nil (h.symm.trans hs)]
  | cons c u =>
    have ht : skipSpaces t = c :: u := h.symm.trans hs
    cases hc : operator? c with
    | none => rw [chainOn_of_none hs hc, chainOn_of_none ht hc]
    | some op =>
      cases hread : operand u with
      | ok reading =>
        obtain ⟨right, rest⟩ := reading
        rw [chainOn_of_some hop left hs hc hread, chainOn_of_some hop left ht hc hread]
      | error stop => rw [chainOn_of_error hs hc hread, chainOn_of_error ht hc hread]

/-- Where no operator of the level follows, a chain leaves the text after its spaces. -/
theorem chainOn_of_stops {left : Expression} {s : Text}
    (h : ∀ c t, skipSpaces s = c :: t → operator? c = none) :
    chainOn operator? operand left s = .ok (left, skipSpaces s) := by
  cases hs : skipSpaces s with
  | nil => exact chainOn_of_nil hs
  | cons c t => exact chainOn_of_none hs (h c t hs)

end Calculator.Expression
