import Calculator.Proofs.Expression.Numeral

/-!
# The grammar of expressions

    expression := term (('+' | '-') term)*
    term       := factor (('*' | '/' | '^') factor)*     '^' in the scientific grammar only
    factor     := ('+' | '-') factor | '(' expression ')' | number | 'NaN' | 'inf'

The grammar is stated here on its own, without the readers. A level is derived with its operators
joined to the left, so the tree of a derivation is also the order in which the level is computed.
Closing brackets may be left out only where the whole text ends, which a derivation records as a
flag: `last` is true of the part of a text that nothing follows.
-/

namespace Calculator

/-- The character that an operator is written with. -/
def Operator.sign : Operator → Char
  | .add => '+'
  | .subtract => '-'
  | .multiply => '*'
  | .divide => '/'
  | .power => '^'

/-- The operators between the terms of an expression. -/
def Operator.JoinsTerms (op : Operator) : Prop := op = .add ∨ op = .subtract

/-- The operators between the factors of a term. Only the scientific grammar has powers. -/
def Operator.JoinsFactors (g : Grammar) (op : Operator) : Prop :=
  op = .multiply ∨ op = .divide ∨ (op = .power ∧ g = .scientific)

theorem Operator.ofTermSign?_eq_some_iff {c : Char} {op : Operator} :
    ofTermSign? c = some op ↔ op.JoinsTerms ∧ c = op.sign := by
  unfold ofTermSign? JoinsTerms
  constructor
  · intro h
    split at h <;> cases h <;> simp [sign]
  · rintro ⟨rfl | rfl, rfl⟩ <;> rfl

theorem Operator.ofFactorSign?_eq_some_iff {g : Grammar} {c : Char} {op : Operator} :
    ofFactorSign? g c = some op ↔ op.JoinsFactors g ∧ c = op.sign := by
  unfold ofFactorSign? JoinsFactors
  constructor
  · intro h
    split at h <;> cases h <;> simp [sign]
  · rintro ⟨rfl | rfl | ⟨rfl, rfl⟩, rfl⟩ <;> rfl

/-- No character is an operator on both levels. -/
theorem Operator.JoinsTerms.ofFactorSign?_sign {g : Grammar} {op : Operator}
    (h : op.JoinsTerms) : ofFactorSign? g op.sign = none := by
  rcases h with rfl | rfl <;> cases g <;> rfl

theorem Operator.sign_ne_space (op : Operator) : op.sign ≠ ' ' := by
  cases op <;> decide

theorem Operator.sign_not_isNumeric (op : Operator) : Expression.isNumeric op.sign = false := by
  cases op <;> decide

namespace Expression

/-- A run of spaces. -/
def spaces (n : Nat) : Text := List.replicate n ' '

theorem spaces_add (m n : Nat) : spaces (m + n) = spaces m ++ spaces n :=
  List.replicate_append_replicate.symm

theorem forall_mem_spaces {P : Char → Prop} (h : P ' ') (n : Nat) : ∀ c ∈ spaces n, P c := by
  intro c hc
  rwa [List.eq_of_mem_replicate hc]

/-- The three levels of the grammar. -/
inductive Level where
  | sum
  | term
  | factor

/-- The grammar derives a text with a tree on a level. Spaces may stand before every token. The
flag says whether nothing follows the text, which is where closing brackets may be left out. -/
inductive Derives (g : Grammar) : (last : Bool) → Level → Text → Expression → Prop
  /-- A term alone is an expression. -/
  | ofTerm {last s e} (h : Derives g last .term s e) : Derives g last .sum s e
  /-- An expression goes on with an adding operator and a term. -/
  | addition {last s t l r op} (n : Nat) (hop : op.JoinsTerms)
      (hl : Derives g false .sum s l) (hr : Derives g last .term t r) :
      Derives g last .sum (s ++ spaces n ++ op.sign :: t) (.binary op l r)
  /-- A factor alone is a term. -/
  | ofFactor {last s e} (h : Derives g last .factor s e) : Derives g last .term s e
  /-- A term goes on with a multiplying operator and a factor. -/
  | product {last s t l r op} (n : Nat) (hop : op.JoinsFactors g)
      (hl : Derives g false .term s l) (hr : Derives g last .factor t r) :
      Derives g last .term (s ++ spaces n ++ op.sign :: t) (.binary op l r)
  /-- A sign before a factor. -/
  | plus {last s e} (n : Nat) (h : Derives g last .factor s e) :
      Derives g last .factor (spaces n ++ '+' :: s) (.plus e)
  /-- A sign before a factor. -/
  | minus {last s e} (n : Nat) (h : Derives g last .factor s e) :
      Derives g last .factor (spaces n ++ '-' :: s) (.minus e)
  /-- An expression in brackets. -/
  | group {last s e} (n m : Nat) (h : Derives g false .sum s e) :
      Derives g last .factor (spaces n ++ '(' :: s ++ spaces m ++ [')']) (.group e)
  /-- An expression in brackets, the closing one left out at the end of the text. -/
  | unclosed {s e} (n : Nat) (h : Derives g true .sum s e) :
      Derives g true .factor (spaces n ++ '(' :: s) (.group e)
  /-- A number. -/
  | number {last s} (n : Nat) (h : Decimal.IsNumeral s) :
      Derives g last .factor (spaces n ++ s) (.number (.ofNumeral s))
  /-- The word for no number. -/
  | undefined {last} (n : Nat) (hg : g = .scientific) :
      Derives g last .factor (spaces n ++ ['N', 'a', 'N']) .undefined
  /-- The word for infinity. -/
  | infinity {last} (n : Nat) (hg : g = .scientific) :
      Derives g last .factor (spaces n ++ ['i', 'n', 'f']) .infinity

/-- A whole text is derived as an expression, with spaces at its end or not. -/
def Accepts (g : Grammar) (s : Text) (e : Expression) : Prop :=
  ∃ u n, s = u ++ spaces n ∧ Derives g true .sum u e

/-- What is derived with all brackets closed is also derived where the text ends. -/
theorem Derives.atEnd {g : Grammar} {last : Bool} {level : Level} {s : Text} {e : Expression}
    (h : Derives g last level s e) : Derives g true level s e := by
  induction h with
  | ofTerm _ ih => exact .ofTerm ih
  | addition n hop hl _ _ ihr => exact .addition n hop hl ihr
  | ofFactor _ ih => exact .ofFactor ih
  | product n hop hl _ _ ihr => exact .product n hop hl ihr
  | plus n _ ih => exact .plus n ih
  | minus n _ ih => exact .minus n ih
  | group n m h _ => exact .group n m h
  | unclosed n h _ => exact .unclosed n h
  | number n h => exact .number n h
  | undefined n hg => exact .undefined n hg
  | infinity n hg => exact .infinity n hg

/-- No expression is empty. -/
theorem Derives.ne_nil {g : Grammar} {last : Bool} {level : Level} {s : Text} {e : Expression}
    (h : Derives g last level s e) : s ≠ [] := by
  induction h with
  | ofTerm _ ih | ofFactor _ ih => exact ih
  | number n h =>
    obtain ⟨c, hc, _⟩ := h.digit
    exact List.ne_nil_of_mem (List.mem_append_right _ hc)
  | addition | product | plus | minus | group | unclosed | undefined | infinity => simp

/-! ## Spaces between tokens -/

/-- Skipping leaves out spaces only. -/
theorem skipSpaces_split (s : Text) : ∃ n, s = spaces n ++ skipSpaces s := by
  induction s with
  | nil => exact ⟨0, rfl⟩
  | cons c s ih =>
    by_cases hc : c = ' '
    · obtain ⟨n, hn⟩ := ih
      refine ⟨n + 1, ?_⟩
      subst hc
      rw [show skipSpaces (' ' :: s) = skipSpaces s from rfl, Nat.add_comm, spaces_add,
        List.append_assoc, ← hn]
      rfl
    · exact ⟨0, by simp [spaces, skipSpaces, hc]⟩

theorem skipSpaces_cons {c : Char} (hc : c ≠ ' ') (s : Text) : skipSpaces (c :: s) = c :: s := by
  simp [skipSpaces, hc]

@[simp] theorem skipSpaces_spaces_append (n : Nat) (s : Text) :
    skipSpaces (spaces n ++ s) = skipSpaces s := by
  induction n with
  | zero => rfl
  | succ n ih =>
    rw [Nat.add_comm, spaces_add, List.append_assoc]
    exact ih

@[simp] theorem skipSpaces_spaces (n : Nat) : skipSpaces (spaces n) = [] := by
  have h := skipSpaces_spaces_append n []
  rwa [List.append_nil] at h

/-- What is left after skipping does not start with a space. -/
theorem ne_space_of_skipSpaces {s t : Text} {c : Char} (h : skipSpaces s = c :: t) : c ≠ ' ' := by
  have hne : s.dropWhile (· == ' ') ≠ [] := by
    intro hnil
    simp [skipSpaces, hnil] at h
  have hhead := List.head_dropWhile_not (· == ' ') hne
  unfold skipSpaces at h
  simpa [h] using hhead

@[simp] theorem skipSpaces_skipSpaces (s : Text) : skipSpaces (skipSpaces s) = skipSpaces s := by
  cases h : skipSpaces s with
  | nil => rfl
  | cons c t => exact skipSpaces_cons (ne_space_of_skipSpaces h) t

theorem skipSpaces_length_le (s : Text) : (skipSpaces s).length ≤ s.length :=
  (List.dropWhile_suffix _).length_le

end Expression

end Calculator
