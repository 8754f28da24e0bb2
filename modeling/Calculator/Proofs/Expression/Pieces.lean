import Calculator.Proofs.Expression.Evaluation

/-!
# Operands do not meet

Between two operands of an expression there is always an operator or a bracket. So where characters
with which operands start or end stand next to each other, they belong to one operand: they are
digits of one number with at most one point, or a single letter of a word.
-/

namespace Calculator.Expression

variable {g : Grammar} {last : Bool} {level : Level} {s t : Text} {e : Expression} {c : Char}
  {x : Float} {P : Text → Prop}

/-- The characters that stand around operands. -/
def separators : Text := [' ', '+', '-', '*', '/', '^', '(', ')']

/-- A property of texts that all operands have, and that separators keep when they join texts. -/
structure IsJoined (P : Text → Prop) : Prop where
  nil : P []
  join : ∀ s c t, c ∈ separators → P s → P t → P (s ++ c :: t)
  number : ∀ s, Decimal.IsNumeral s → P s
  undefined : P ['N', 'a', 'N']
  infinity : P ['i', 'n', 'f']

namespace IsJoined

theorem append_spaces (hP : IsJoined P) (hs : P s) (n : Nat) : P (s ++ spaces n) := by
  induction n with
  | zero => rwa [spaces, List.replicate_zero, List.append_nil]
  | succ n ih =>
    rw [spaces_add, ← List.append_assoc]
    exact hP.join _ ' ' [] (by decide) ih hP.nil

theorem spaces_append (hP : IsJoined P) (n : Nat) (hs : P s) : P (spaces n ++ s) := by
  induction n with
  | zero => exact hs
  | succ n ih => exact hP.join [] ' ' _ (by decide) hP.nil ih

/-- By induction on the derivation: every derived text has such a property. -/
theorem of_derives (hP : IsJoined P) (h : Derives g last level s e) : P s := by
  have hsign (op : Operator) : op.sign ∈ separators := by cases op <;> decide
  induction h with
  | ofTerm _ ih | ofFactor _ ih => exact ih
  | addition n _ _ _ ihl ihr | product n _ _ _ ihl ihr =>
    exact hP.join _ _ _ (hsign _) (hP.append_spaces ihl n) ihr
  | plus n _ ih | minus n _ ih | unclosed n _ ih =>
    exact hP.spaces_append n (hP.join [] _ _ (by decide) hP.nil ih)
  | group n m _ ih =>
    have hclosed := hP.join _ ')' [] (by decide) (hP.append_spaces ih m) hP.nil
    rw [List.append_assoc, List.append_assoc, List.cons_append, ← List.append_assoc]
    exact hP.spaces_append n (hP.join [] '(' _ (by decide) hP.nil hclosed)
  | number n h => exact hP.spaces_append n (hP.number _ h)
  | undefined n _ => exact hP.spaces_append n hP.undefined
  | infinity n _ => exact hP.spaces_append n hP.infinity

/-- Every text with a value has such a property. -/
theorem of_evaluate (hP : IsJoined P) (h : evaluate g s = .ok x) : P s := by
  obtain ⟨e, hparse, -⟩ := evaluate_eq_ok h
  obtain ⟨⟨u, n, rfl, hderives⟩, -⟩ := parse_eq_ok_iff.mp hparse
  exact hP.append_spaces (hP.of_derives hderives) n

end IsJoined

/-- Whether a character occurs in expressions. -/
def isOfExpression (c : Char) : Bool :=
  isNumeric c || separators.contains c || ['N', 'a', 'i', 'n', 'f'].contains c

/-- Expressions have no other characters. -/
theorem isJoined_isOfExpression : IsJoined fun s => ∀ c ∈ s, isOfExpression c = true where
  nil := nofun
  join s c t hc hs ht := by
    rw [List.forall_mem_append, List.forall_mem_cons]
    exact ⟨hs, by simp [isOfExpression, hc], ht⟩
  number s hs c hc := by simp [isOfExpression, hs.numeric c hc]
  undefined := List.all_eq_true.mp (by decide)
  infinity := List.all_eq_true.mp (by decide)

/-! ## Runs of characters of operands -/

/-- Whether an operand can start or end with a character. -/
def isEdge (c : Char) : Bool := isNumeric c || c == 'N' || c == 'i' || c == 'f'

/-- A run of characters that belong to one operand. -/
inductive IsPiece : Text → Prop
  /-- Digits of a number, with its point among them or not. -/
  | number {run : Text} (hnumeric : ∀ c ∈ run, isNumeric c = true) (hpoint : run.count '.' ≤ 1) :
    IsPiece run
  /-- A letter of a word. -/
  | letter (c : Char) : IsPiece [c]

/-- No two operands meet: characters of operands that stand together belong to one operand. -/
def OperandsApart (s : Text) : Prop :=
  ∀ run, run <:+: s → (∀ c ∈ run, isEdge c = true) → IsPiece run

namespace OperandsApart

theorem of_infix (hs : OperandsApart s) (ht : t <:+: s) : OperandsApart t :=
  fun run hrun => hs run (hrun.trans ht)

theorem of_isNumeral (h : Decimal.IsNumeral s) : OperandsApart s := fun _ hrun _ =>
  .number (fun c hc => h.numeric c (hrun.subset hc))
    (Nat.le_trans (hrun.sublist.count_le '.') h.point)

theorem nil : OperandsApart [] := by
  intro run hrun _
  rw [List.infix_nil.mp hrun]
  exact .number nofun (Nat.zero_le 1)

/-- A run lies on one side of a character that is at no edge of an operand. -/
theorem append_cons (hs : OperandsApart s) (hc : isEdge c = false) (ht : OperandsApart t) :
    OperandsApart (s ++ c :: t) := by
  intro run hrun hedge
  have hstart {u : Text} (hu : u <+: c :: t) (hmem : ∀ d ∈ u, d ∈ run) : u = [] := by
    rcases List.prefix_cons_iff.mp hu with rfl | ⟨v, rfl, -⟩
    · rfl
    · rw [hedge c (hmem c List.mem_cons_self)] at hc
      cases hc
  rcases List.infix_append_iff.mp hrun with hleft | hright | ⟨u, v, rfl, hu, hv⟩
  · exact hs run hleft hedge
  · rcases List.infix_cons_iff.mp hright with hfirst | hright
    · obtain rfl := hstart hfirst fun _ => id
      exact .number nofun (Nat.zero_le 1)
    · exact ht run hright hedge
  · obtain rfl := hstart hv fun d hd => List.mem_append_right u hd
    rw [List.append_nil] at hedge ⊢
    exact hs u hu.isInfix hedge

theorem singleton (c : Char) : OperandsApart [c] := by
  intro run hrun _
  rcases List.infix_cons_iff.mp hrun with hfirst | hrest
  · rcases List.prefix_cons_iff.mp hfirst with rfl | ⟨v, rfl, hv⟩
    · exact .number nofun (Nat.zero_le 1)
    · rw [List.prefix_nil.mp hv]
      exact .letter c
  · rw [List.infix_nil.mp hrest]
    exact .number nofun (Nat.zero_le 1)

end OperandsApart

/-- No two operands of an expression meet. -/
theorem isJoined_operandsApart : IsJoined OperandsApart where
  nil := .nil
  join s c t hc hs ht := by
    have hseparators : separators.all (!isEdge ·) = true := by decide
    exact hs.append_cons (by simpa using List.all_eq_true.mp hseparators c hc) ht
  number _ := .of_isNumeral
  undefined := (OperandsApart.singleton 'N').append_cons (by decide) (.singleton 'N')
  infinity := (OperandsApart.singleton 'i').append_cons (by decide) (.singleton 'f')

end Calculator.Expression
