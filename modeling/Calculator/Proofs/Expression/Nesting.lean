import Calculator.Proofs.Expression.Evaluation

/-!
# The limit on signs and brackets

The readers count a number as one of the signs and brackets around it, so a number may stand inside
255 of them and not inside 256. A text that is derived with a deeper number is read up to the first
one of these, and there the fault of too many signs and brackets is met: all that stands before it
is derived within the limit, and is read as it is in any other text.
-/

namespace Calculator.Expression

variable {g : Grammar} {operator? : Char → Option Operator} {operand : Text → Reading}
  {last : Bool} {level : Level} {s t : Text} {e left : Expression} {op : Operator} {depth : Nat}

/-! ## Readings that are too deep -/

/-- A reading meets too many signs and brackets. -/
def IsTooDeep (reading : Reading) : Prop := ∃ rest, reading = .error ⟨rest, .nesting⟩

/-- Nothing goes on after too many signs and brackets. -/
theorem IsTooDeep.bind {reading : Reading} (h : IsTooDeep reading)
    (next : Expression × Text → Reading) : IsTooDeep (reading >>= next) := by
  obtain ⟨rest, rfl⟩ := h
  exact ⟨rest, rfl⟩

theorem IsTooDeep.chainOn (h : IsTooDeep (operand t)) (hsign : operator? op.sign = some op)
    (left : Expression) (n : Nat) :
    IsTooDeep (chainOn operator? operand left (spaces n ++ op.sign :: t)) := by
  obtain ⟨rest, hread⟩ := h
  exact ⟨rest, chainOn_of_error (skipSpaces_operator n op t) hsign hread⟩

/-- The reader of a level. -/
def reader (g : Grammar) (depth : Nat) : Level → Text → Reading
  | .factor => readFactor g depth
  | .term => readTerm g (readFactor g depth)
  | .sum => readSum g (readFactor g depth)

/-- By induction on the derivation: the reader of its level meets too many signs and brackets,
whatever follows the text. -/
theorem Derives.isTooDeep (h : Derives g last level s e) (hdeep : depth ≤ e.nesting)
    (rest : Text) : IsTooDeep (reader g depth level (s ++ rest)) := by
  induction h generalizing depth rest with
  | ofTerm _ ih => exact (ih hdeep rest).bind _
  | ofFactor _ ih => exact (ih hdeep rest).bind _
  | @addition last s t l r op n hop hl _ ihl ihr =>
    rw [List.append_assoc, List.append_assoc, List.cons_append]
    by_cases hleft : depth ≤ l.nesting
    · exact ihl hleft _
    · -- the left operand is read within the limit
      have hread : readSum g (readFactor g depth) _ = _ :=
        hl.followedBy (Nat.lt_of_not_le hleft) (follows_operator n op (t ++ rest))
          (endsTerm_of_skipSpaces (skipSpaces_operator n op _) hop.ofFactorSign?_sign)
      rw [nesting] at hdeep
      rw [reader, hread]
      exact (ihr (by omega) rest).chainOn (Operator.ofTermSign?_eq_some_iff.mpr ⟨hop, rfl⟩) l n
  | @product last s t l r op n hop hl _ ihl ihr =>
    rw [List.append_assoc, List.append_assoc, List.cons_append]
    by_cases hleft : depth ≤ l.nesting
    · exact ihl hleft _
    · have hread : readTerm g (readFactor g depth) _ = _ :=
        hl.followedBy (Nat.lt_of_not_le hleft) (follows_operator n op (t ++ rest))
      rw [nesting] at hdeep
      rw [reader, hread]
      exact (ihr (by omega) rest).chainOn (Operator.ofFactorSign?_eq_some_iff.mpr ⟨hop, rfl⟩) l n
  | @plus last s e n _ ih =>
    cases depth with
    | zero => exact ⟨_, rfl⟩
    | succ depth =>
      rw [List.append_assoc, List.cons_append, reader, readFactor_plus]
      exact (ih (Nat.le_of_succ_le_succ hdeep) rest).bind _
  | @minus last s e n _ ih =>
    cases depth with
    | zero => exact ⟨_, rfl⟩
    | succ depth =>
      rw [List.append_assoc, List.cons_append, reader, readFactor_minus]
      exact (ih (Nat.le_of_succ_le_succ hdeep) rest).bind _
  | @group last s e n m _ ih =>
    cases depth with
    | zero => exact ⟨_, rfl⟩
    | succ depth =>
      have htext : spaces n ++ '(' :: s ++ spaces m ++ [')'] ++ rest =
          spaces n ++ '(' :: (s ++ (spaces m ++ ')' :: rest)) := by simp
      rw [htext, reader, readFactor_open]
      exact (ih (Nat.le_of_succ_le_succ hdeep) _).bind _
  | @unclosed s e n _ ih =>
    cases depth with
    | zero => exact ⟨_, rfl⟩
    | succ depth =>
      rw [List.append_assoc, List.cons_append, reader, readFactor_open]
      exact (ih (Nat.le_of_succ_le_succ hdeep) rest).bind _
  | number | undefined | infinity =>
    obtain rfl := Nat.le_zero.mp hdeep
    exact ⟨_, rfl⟩

/-! ## Texts -/

/-- A text is refused for the signs and brackets in it. -/
def RefusesNesting (g : Grammar) (s : Text) : Prop :=
  ∃ place, (evaluate g s).mapError Failure.ofUnexpected =
    .error (.unexpected place "nesting deeper than 256")

theorem Accepts.refusesNesting (h : Accepts g s e) (hdeep : maxNesting ≤ e.nesting) :
    RefusesNesting g s := by
  obtain ⟨u, n, rfl, hderives⟩ := h
  obtain ⟨rest, hread⟩ := hderives.isTooDeep hdeep (spaces n)
  have hsum : readSum g (readFactor g maxNesting) (u ++ spaces n) = .error ⟨rest, .nesting⟩ := hread
  have hparse : parse g (u ++ spaces n) =
      .error ⟨(u ++ spaces n).length - rest.length, .nesting⟩ := by
    rw [parse, hsum]
    rfl
  have hmessage : Found.nesting.text = "nesting deeper than 256" := by decide
  refine ⟨(u ++ spaces n).length - rest.length, ?_⟩
  rw [evaluate, hparse, ← hmessage]
  rfl

/-- No text both has a value and is refused. -/
theorem not_refusesNesting {x : Float} (h : evaluate g s = .ok x) : ¬RefusesNesting g s := by
  rintro ⟨place, hrefused⟩
  rw [h] at hrefused
  cases hrefused

/-- **A text has a value exactly if no number in it stands inside of more than 255 signs and
brackets**, and is refused for them otherwise. The words of the refusal promise that 256 of them are
not too many. This promise is kept unless the deepest number stands inside of exactly 256. -/
theorem evaluate_nesting_iff (h : Accepts g s e) :
    ((∃ x, evaluate g s = .ok x) ↔ e.nesting ≤ 255) ∧
      (RefusesNesting g s ↔ 256 ≤ e.nesting) ∧
      ((e.nesting ≤ 256 → ∃ x, evaluate g s = .ok x) ∧ (256 < e.nesting → RefusesNesting g s) ↔
        e.nesting ≠ 256) := by
  have hvalue : e.nesting ≤ 255 → ∃ x, evaluate g s = .ok x := fun hle =>
    ⟨_, evaluate_of_accepts h (Nat.lt_succ_of_le hle)⟩
  have hrefuses : 256 ≤ e.nesting → RefusesNesting g s := h.refusesNesting
  have hnot : (∃ x, evaluate g s = .ok x) → ¬RefusesNesting g s := by
    rintro ⟨x, hx⟩
    exact not_refusesNesting hx
  refine ⟨⟨fun hx => ?_, hvalue⟩, ⟨fun hrefused => ?_, hrefuses⟩, ?_⟩
  · by_contra hlt
    exact hnot hx (hrefuses (by omega))
  · by_contra hlt
    exact hnot (hvalue (by omega)) hrefused
  · constructor
    · rintro ⟨hle, -⟩ heq
      exact hnot (hle (Nat.le_of_eq heq)) (hrefuses (Nat.le_of_eq heq.symm))
    · intro hne
      exact ⟨fun hle => hvalue (by omega), fun hlt => hrefuses (Nat.le_of_lt hlt)⟩

/-- A text inside of a number of brackets. -/
def bracketed (n : Nat) (s : Text) : Text := List.replicate n '(' ++ s ++ List.replicate n ')'

theorem Derives.bracketed (h : Derives g false .sum s e) (n : Nat) :
    ∃ e', Derives g false .sum (bracketed n s) e' ∧ e'.nesting = e.nesting + n := by
  induction n with
  | zero => exact ⟨e, by simpa [Expression.bracketed] using h, rfl⟩
  | succ n ih =>
    obtain ⟨e', hderives, hnest⟩ := ih
    refine ⟨.group e', .ofTerm (.ofFactor ?_), by rw [nesting, hnest, Nat.add_assoc]⟩
    have hgroup : Derives g false .factor _ (.group e') := .group 0 0 hderives
    simpa [Expression.bracketed, spaces, List.replicate_succ, ← List.replicate_succ'] using hgroup

theorem exists_accepts_bracketed (g : Grammar) (n : Nat) :
    ∃ e, Accepts g (bracketed n ['1']) e ∧ e.nesting = n := by
  have hone : Decimal.IsNumeral ['1'] :=
    .of_digits (List.forall_mem_singleton.mpr (by decide)) (List.cons_ne_nil _ _)
  have hnumber : Derives g false .factor ['1'] _ := .number 0 hone
  obtain ⟨e, hderives, hnest⟩ := (Derives.ofTerm (.ofFactor hnumber)).bracketed n
  refine ⟨e, ⟨_, 0, (List.append_nil _).symm, hderives.atEnd⟩, ?_⟩
  rw [hnest, nesting, Nat.zero_add]

/-- A number inside of 255 brackets has a value, and one inside of 257 has none. -/
theorem evaluate_nesting_bracketed :
    (∃ e, Accepts .programmer (bracketed 255 ['1']) e ∧ e.nesting = 255) ∧
    (∃ x, evaluate .programmer (bracketed 255 ['1']) = .ok x) ∧
    (∃ e, Accepts .programmer (bracketed 257 ['1']) e ∧ e.nesting = 257) ∧
    RefusesNesting .programmer (bracketed 257 ['1']) := by
  obtain ⟨e, haccepts, hnest⟩ := exists_accepts_bracketed .programmer 255
  obtain ⟨e', haccepts', hnest'⟩ := exists_accepts_bracketed .programmer 257
  exact ⟨⟨e, haccepts, hnest⟩, (evaluate_nesting_iff haccepts).1.mpr (by omega),
    ⟨e', haccepts', hnest'⟩, (evaluate_nesting_iff haccepts').2.1.mpr (by omega)⟩

/-- A number inside of exactly 256 brackets is refused as if it were inside of more. -/
theorem evaluate_refuses_limit :
    (∃ e, Accepts .programmer (bracketed 256 ['1']) e ∧ e.nesting = 256) ∧
      (∀ x, evaluate .programmer (bracketed 256 ['1']) ≠ .ok x) ∧
      RefusesNesting .programmer (bracketed 256 ['1']) := by
  obtain ⟨e, haccepts, hnest⟩ := exists_accepts_bracketed .programmer 256
  have hrefused := haccepts.refusesNesting (Nat.le_of_eq hnest.symm)
  exact ⟨⟨e, haccepts, hnest⟩, fun x hx => not_refusesNesting hx hrefused, hrefused⟩

end Calculator.Expression
