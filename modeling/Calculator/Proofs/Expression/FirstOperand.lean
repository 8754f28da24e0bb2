import Calculator.Proofs.Expression.Evaluation
import Calculator.Proofs.Number.Signs

/-!
# The first operand

Operators are joined to the left, so a text starts with the leftmost factor of its tree, and any
other factor can stand there instead; likewise for the leftmost term. A sign at the start of a text
belongs to the first factor alone. As long as the first term has no power, this is the same as a
sign of the whole term, and so as adding the term to zero or subtracting it from zero.
-/

namespace Calculator.Expression

open Double (SameValue)

variable {g : Grammar} {last : Bool} {level : Level} {s : Text} {e f : Expression}

/-- The leftmost factor. -/
def firstFactor : Expression → Expression
  | .binary _ l _ => l.firstFactor
  | e => e

/-- The expression with another leftmost factor. -/
def withFirstFactor : Expression → Expression → Expression
  | .binary op l r, f => .binary op (l.withFirstFactor f) r
  | _, f => f

/-- The leftmost term. -/
def firstTerm : Expression → Expression
  | .binary .add l _ | .binary .subtract l _ => l.firstTerm
  | e => e

/-- The expression with another leftmost term. -/
def withFirstTerm : Expression → Expression → Expression
  | .binary .add l r, t => .binary .add (l.withFirstTerm t) r
  | .binary .subtract l r, t => .binary .subtract (l.withFirstTerm t) r
  | _, t => t

/-- Whether a term has no operators but multiplications and divisions. -/
def hasNoPower : Expression → Bool
  | .binary .multiply l _ | .binary .divide l _ => l.hasNoPower
  | .binary _ _ _ => false
  | _ => true

/-! ## Trees -/

theorem withFirstFactor_firstFactor (e : Expression) : e.withFirstFactor e.firstFactor = e := by
  induction e with
  | binary op l r ih _ => rw [firstFactor, withFirstFactor, ih]
  | number | undefined | infinity | plus | minus | group => rfl

theorem nesting_withFirstFactor (h : f.nesting ≤ e.firstFactor.nesting) :
    (e.withFirstFactor f).nesting ≤ e.nesting := by
  induction e with
  | binary op l r ih _ => exact max_le_max_right _ (ih h)
  | number | undefined | infinity | plus | minus | group => exact h

theorem nesting_withFirstTerm (h : f.nesting ≤ e.firstTerm.nesting) :
    (e.withFirstTerm f).nesting ≤ e.nesting := by
  fun_induction firstTerm e with
  | case1 l r ih | case2 l r ih => exact max_le_max_right _ (ih h)
  | case3 e hadd hsubtract =>
    rw [withFirstTerm]
    · exact h
    · exact hadd
    · exact hsubtract

/-- The value changes with that of the first factor. -/
theorem value_withFirstFactor (h : f.value = e.firstFactor.value) :
    (e.withFirstFactor f).value = e.value := by
  induction e with
  | binary op l r ih _ => rw [withFirstFactor, value, value, ih h]
  | number | undefined | infinity | plus | minus | group => exact h

/-- Without a power, a sign of the first factor is a sign of the term. -/
theorem value_of_minus (hpower : e.hasNoPower = true) (h : e.firstFactor = .minus f) :
    e.value = -(e.withFirstFactor f).value := by
  fun_induction hasNoPower e with
  | case1 l r ih =>
    rw [withFirstFactor, value, value, ih hpower h]
    exact Double.neg_mul _ _
  | case2 l r ih =>
    rw [withFirstFactor, value, value, ih hpower h]
    exact Double.neg_div _ _
  | case3 => cases hpower
  | case4 e _ _ hbinary =>
    rw [firstFactor] at h
    · rw [withFirstFactor, h, value]
      exact hbinary
    · exact hbinary

/-- The sign of a zero in the first term makes at most this difference to the value. -/
theorem sameValue_withFirstTerm (h : SameValue f.value e.firstTerm.value) :
    SameValue (e.withFirstTerm f).value e.value := by
  fun_induction firstTerm e with
  | case1 l r ih => exact (ih h).add_right r.value
  | case2 l r ih => exact (ih h).sub_right r.value
  | case3 e hadd hsubtract =>
    rw [withFirstTerm]
    · exact h
    · exact hadd
    · exact hsubtract

/-! ## Derivations -/

/-- A factor is its own first factor. -/
private theorem firstFactor_of_factor (h : Derives g last .factor s e) :
    e.firstFactor = e ∧ ∀ f, e.withFirstFactor f = f := by
  cases h <;> exact ⟨rfl, fun _ => rfl⟩

/-- A term is its own first term. -/
private theorem firstTerm_of_term (h : Derives g last .term s e) :
    e.firstTerm = e ∧ ∀ t, e.withFirstTerm t = t := by
  cases h with
  | ofFactor h => cases h <;> exact ⟨rfl, fun _ => rfl⟩
  | product n hop hl hr => rcases hop with rfl | rfl | ⟨rfl, -⟩ <;> exact ⟨rfl, fun _ => rfl⟩

/-- By induction on the derivation: a text starts with its first factor, and any other factor may
stand there. -/
theorem Derives.exists_firstFactor (h : Derives g last level s e) :
    ∃ ends u v, s = u ++ v ∧ EndsNumber v ∧ Derives g ends .factor u e.firstFactor ∧
      ∀ u' f, Derives g ends .factor u' f →
        Derives g last level (u' ++ v) (e.withFirstFactor f) := by
  have hself {last : Bool} {s : Text} {e : Expression} (h : Derives g last .factor s e) :
      ∃ ends u v, s = u ++ v ∧ EndsNumber v ∧ Derives g ends .factor u e.firstFactor ∧
        ∀ u' f, Derives g ends .factor u' f →
          Derives g last .factor (u' ++ v) (e.withFirstFactor f) := by
    obtain ⟨hfirst, hwith⟩ := firstFactor_of_factor h
    refine ⟨last, s, [], (List.append_nil s).symm, nofun, by rwa [hfirst], fun u' f hf => ?_⟩
    rwa [List.append_nil, hwith]
  induction h with
  | ofTerm _ ih =>
    obtain ⟨ends, u, v, hs, hv, hfactor, hexchange⟩ := ih
    exact ⟨ends, u, v, hs, hv, hfactor, fun u' f hf => .ofTerm (hexchange u' f hf)⟩
  | @addition last s t l r op n hop _ hr ihl _ =>
    obtain ⟨ends, u, v, rfl, hv, hfactor, hexchange⟩ := ihl
    refine ⟨ends, u, v ++ (spaces n ++ op.sign :: t), by simp,
      hv.append (follows_operator n op t).1, hfactor, fun u' f hf => ?_⟩
    have haddition := Derives.addition n hop (hexchange u' f hf) hr
    rwa [List.append_assoc, List.append_assoc] at haddition
  | ofFactor _ ih =>
    obtain ⟨ends, u, v, hs, hv, hfactor, hexchange⟩ := ih
    exact ⟨ends, u, v, hs, hv, hfactor, fun u' f hf => .ofFactor (hexchange u' f hf)⟩
  | @product last s t l r op n hop _ hr ihl _ =>
    obtain ⟨ends, u, v, rfl, hv, hfactor, hexchange⟩ := ihl
    refine ⟨ends, u, v ++ (spaces n ++ op.sign :: t), by simp,
      hv.append (follows_operator n op t).1, hfactor, fun u' f hf => ?_⟩
    have hproduct := Derives.product n hop (hexchange u' f hf) hr
    rwa [List.append_assoc, List.append_assoc] at hproduct
  | plus n h _ => exact hself (.plus n h)
  | minus n h _ => exact hself (.minus n h)
  | group n m h _ => exact hself (.group n m h)
  | unclosed n h _ => exact hself (.unclosed n h)
  | number n h => exact hself (.number n h)
  | undefined n hg => exact hself (.undefined n hg)
  | infinity n hg => exact hself (.infinity n hg)

/-- By induction on the derivation: an expression starts with its first term, and any other
expression may stand there. -/
theorem Derives.exists_firstTerm (h : Derives g last .sum s e) :
    ∃ ends u v, s = u ++ v ∧ Derives g ends .term u e.firstTerm ∧
      ∀ u' t, Derives g ends .sum u' t → Derives g last .sum (u' ++ v) (e.withFirstTerm t) := by
  generalize hlevel : Level.sum = level at h
  induction h with
  | @ofTerm last s e h _ =>
    obtain ⟨hfirst, hwith⟩ := firstTerm_of_term h
    refine ⟨last, s, [], (List.append_nil s).symm, by rwa [hfirst], fun u' t ht => ?_⟩
    rwa [List.append_nil, hwith]
  | @addition last s t l r op n hop _ hr ihl _ =>
    obtain ⟨ends, u, v, rfl, hterm, hexchange⟩ := ihl rfl
    have hfirst : (binary op l r).firstTerm = l.firstTerm ∧
        ∀ t, (binary op l r).withFirstTerm t = binary op (l.withFirstTerm t) r := by
      rcases hop with rfl | rfl <;> exact ⟨rfl, fun _ => rfl⟩
    refine ⟨ends, u, v ++ (spaces n ++ op.sign :: t), by simp, by rwa [hfirst.1], ?_⟩
    intro u' e he
    have haddition := Derives.addition n hop (hexchange u' e he) hr
    rwa [List.append_assoc, List.append_assoc, ← hfirst.2] at haddition
  | ofFactor | product | plus | minus | group | unclosed | number | undefined | infinity =>
    cases hlevel

/-! ## Texts by their first character -/

/-- What a factor is by the first character of its text. -/
inductive FactorStart (g : Grammar) (last : Bool) : Text → Expression → Prop
  | space {t : Text} {f : Expression} : FactorStart g last (' ' :: t) f
  | plus {t : Text} {f : Expression} (h : Derives g last .factor t f) :
    FactorStart g last ('+' :: t) (.plus f)
  | minus {t : Text} {f : Expression} (h : Derives g last .factor t f) :
    FactorStart g last ('-' :: t) (.minus f)
  | bracket {t : Text} {f : Expression} : FactorStart g last ('(' :: t) f
  | number {t : Text} (h : Decimal.IsNumeral t) : FactorStart g last t (.number (.ofNumeral t))
  | word {c : Char} {t : Text} {f : Expression} (hc : c = 'N' ∨ c = 'i') :
    FactorStart g last (c :: t) f

theorem Derives.factorStart (h : Derives g last .factor s e) : FactorStart g last s e := by
  cases h with
  | plus n h =>
    cases n with
    | zero => exact .plus h
    | succ n => exact .space
  | minus n h =>
    cases n with
    | zero => exact .minus h
    | succ n => exact .space
  | group n m h | unclosed n h =>
    cases n with
    | zero => exact .bracket
    | succ n => exact .space
  | number n h =>
    cases n with
    | zero => exact .number h
    | succ n => exact .space
  | undefined n hg =>
    cases n with
    | zero => exact .word (.inl rfl)
    | succ n => exact .space
  | infinity n hg =>
    cases n with
    | zero => exact .word (.inr rfl)
    | succ n => exact .space

/-- A numeral at the start of a text can be exchanged for another one of the same decimal. -/
theorem Derives.exchange_numeral {run rest : Text} (h : Derives g last level (run ++ rest) e)
    (hrun : ∀ c ∈ run, isNumeric c = true) (hne : run ≠ []) (hrest : EndsNumber rest) :
    Decimal.IsNumeral run ∧ ∀ run', Decimal.IsNumeral run' →
      Decimal.ofNumeral run' = Decimal.ofNumeral run → Derives g last level (run' ++ rest) e := by
  obtain ⟨ends, u, v, htext, hv, hfactor, hexchange⟩ := h.exists_firstFactor
  obtain ⟨c, u, rfl⟩ := List.exists_cons_of_ne_nil hfactor.ne_nil
  obtain ⟨d, run, rfl⟩ := List.exists_cons_of_ne_nil hne
  have hnumeric := hrun d List.mem_cons_self
  obtain rfl : d = c := (List.cons.inj htext).1
  generalize hfirst : e.firstFactor = first at hfactor
  cases hfactor.factorStart with
  | number hu =>
    have hsame : d :: run = d :: u := by
      rw [← (hrest.takeWhile_append hrun).1, htext, (hv.takeWhile_append hu.numeric).1]
    obtain rfl := (List.cons.inj hsame).2
    obtain rfl := List.append_cancel_left htext
    refine ⟨hu, fun run' hrun' heq => ?_⟩
    have hexchanged := hexchange run' (.number (.ofNumeral run')) (.number 0 hrun')
    rwa [heq, ← hfirst, withFirstFactor_firstFactor] at hexchanged
  | space | plus | minus | bracket => exact absurd hnumeric (by decide)
  | word hc => rcases hc with rfl | rfl <;> exact absurd hnumeric (by decide)

/-- The first character of a text that does not start with a space or a word. -/
theorem Derives.head_cases {c : Char} (h : Derives g last level (c :: s) e) :
    c = ' ' ∨ c = 'N' ∨ c = 'i' ∨ c = '(' ∨ c = '+' ∨ c = '-' ∨ isNumeric c = true := by
  obtain ⟨ends, u, v, htext, -, hfactor, -⟩ := h.exists_firstFactor
  obtain ⟨d, u, rfl⟩ := List.exists_cons_of_ne_nil hfactor.ne_nil
  obtain rfl : c = d := (List.cons.inj htext).1
  generalize e.firstFactor = first at hfactor
  cases hfactor.factorStart with
  | number hu => simp [hu.numeric c List.mem_cons_self]
  | space | plus | minus | bracket => simp
  | word hc => rcases hc with rfl | rfl <;> simp

/-- A sign at the start of a factor is a sign of an operand. -/
theorem Derives.exists_operand {op : Operator} (hop : op.JoinsTerms)
    (h : Derives g last .factor (op.sign :: s) e) : ∃ f, Derives g last .factor s f ∧
      (op = .add ∧ e = .plus f ∨ op = .subtract ∧ e = .minus f) := by
  have hstart := h.factorStart
  generalize htext : op.sign :: s = text at hstart
  cases hstart with
  | plus hf =>
    obtain ⟨hsign, rfl⟩ := List.cons.inj htext
    rcases hop with rfl | rfl
    · exact ⟨_, hf, .inl ⟨rfl, rfl⟩⟩
    · exact absurd hsign (by decide)
  | minus hf =>
    obtain ⟨hsign, rfl⟩ := List.cons.inj htext
    rcases hop with rfl | rfl
    · exact absurd hsign (by decide)
    · exact ⟨_, hf, .inr ⟨rfl, rfl⟩⟩
  | number hu =>
    have hnumeric := hu.numeric op.sign (by simp [← htext])
    rw [op.sign_not_isNumeric] at hnumeric
    cases hnumeric
  | space => exact absurd (List.cons.inj htext).1 op.sign_ne_space
  | bracket => rcases hop with rfl | rfl <;> exact absurd (List.cons.inj htext).1 (by decide)
  | word hc =>
    have hsign := (List.cons.inj htext).1
    rcases hop with rfl | rfl <;> rcases hc with rfl | rfl <;> exact absurd hsign (by decide)

/-- A sign at the start of a term belongs to its first factor. Without the sign, the text is a term
whose value differs in the sign alone, unless a minus sign comes before a power. -/
theorem Derives.exists_unsigned {op : Operator} (hop : op.JoinsTerms)
    (h : Derives g last .term (op.sign :: s) e)
    (hpower : op = .subtract → e.hasNoPower = true) :
    ∃ t, Derives g last .term s t ∧ t.nesting ≤ e.nesting ∧
      SameValue (op.apply (Decimal.toFloat ⟨0, 0⟩) t.value) e.value := by
  obtain ⟨ends, u, v, htext, -, hfactor, hexchange⟩ := h.exists_firstFactor
  obtain ⟨d, u, rfl⟩ := List.exists_cons_of_ne_nil hfactor.ne_nil
  obtain ⟨rfl, rfl⟩ := List.cons.inj htext
  obtain ⟨f, hf, hsign⟩ := hfactor.exists_operand hop
  refine ⟨e.withFirstFactor f, hexchange u f hf, nesting_withFirstFactor ?_, ?_⟩
  · rcases hsign with ⟨-, hfirst⟩ | ⟨-, hfirst⟩ <;> rw [hfirst] <;> exact Nat.le_succ _
  · rcases hsign with ⟨rfl, hfirst⟩ | ⟨rfl, hfirst⟩
    · rw [← value_withFirstFactor (e := e) (f := f) (by rw [hfirst]; rfl)]
      exact Double.isZero_toFloat.add _
    · rw [value_of_minus (hpower rfl) hfirst, Operator.apply, Double.sub_eq_add_neg]
      exact Double.isZero_toFloat.add _

/-- **A sign at the start can be read as an operator after zero.** Unless a minus sign comes before
a power in the first term, the value is the same up to the sign of a zero. -/
theorem Derives.exists_afterZero {op : Operator} (hop : op.JoinsTerms)
    (h : Derives g last .sum (op.sign :: s) e)
    (hpower : op = .subtract → e.firstTerm.hasNoPower = true) :
    ∃ t, Derives g last .sum ('0' :: op.sign :: s) t ∧ t.nesting ≤ e.nesting ∧
      SameValue t.value e.value := by
  obtain ⟨ends, u, v, htext, hterm, hexchange⟩ := h.exists_firstTerm
  obtain ⟨d, u, rfl⟩ := List.exists_cons_of_ne_nil hterm.ne_nil
  obtain ⟨rfl, rfl⟩ := List.cons.inj htext
  obtain ⟨t, ht, hnest, hvalue⟩ := hterm.exists_unsigned hop hpower
  have hnumeral : Decimal.IsNumeral ['0'] := .of_digits (by simp) (by simp)
  have hzero : Decimal.ofNumeral ['0'] = ⟨0, 0⟩ := by decide
  have hdifference : Derives g ends .sum ('0' :: op.sign :: u) (.binary op (.number ⟨0, 0⟩) t) :=
    hzero ▸ .addition 0 hop (.ofTerm (.ofFactor (.number 0 hnumeral))) ht
  refine ⟨_, hexchange _ _ hdifference, nesting_withFirstTerm ?_, sameValue_withFirstTerm hvalue⟩
  rw [nesting, nesting, Nat.zero_max]
  exact hnest

/-! ## Whole texts -/

/-- Whether a text starts with a minus sign and its first term has a power. The sign then belongs to
the first factor alone, and the term need not change its sign with it. -/
def minusBeforePower (g : Grammar) (s : Text) : Bool :=
  s.head? == some '-' &&
    match parse g s with
    | .ok e => !e.firstTerm.hasNoPower
    | .error _ => false

/-- What is read from a text without spaces that has a value. -/
theorem derives_of_evaluate {x : Float} (hspace : ' ' ∉ s) (h : evaluate g s = .ok x) :
    ∃ e, parse g s = .ok e ∧ Derives g true .sum s e ∧ e.nesting < maxNesting ∧ e.value = x := by
  obtain ⟨e, hparse, rfl⟩ := evaluate_eq_ok h
  obtain ⟨⟨u, n, rfl, hderives⟩, hnest⟩ := parse_eq_ok_iff.mp hparse
  cases n with
  | zero =>
    rw [spaces, List.replicate_zero, List.append_nil] at hparse ⊢
    exact ⟨e, hparse, hderives, hnest, rfl⟩
  | succ n => exact absurd (by simp [spaces, List.replicate_succ]) hspace

/-- There are no powers in the programmer grammar. -/
theorem minusBeforePower_programmer (s : Text) : minusBeforePower .programmer s = false := by
  have hterm {last : Bool} {s : Text} {e : Expression} (h : Derives .programmer last .term s e) :
      e.hasNoPower = true := by
    generalize hlevel : Level.term = level at h
    induction h with
    | ofFactor h _ => cases h <;> rfl
    | product n hop _ _ ih _ =>
      rcases hop with rfl | rfl | ⟨-, hg⟩
      · exact ih rfl
      · exact ih rfl
      · cases hg
    | ofTerm | addition | plus | minus | group | unclosed | number | undefined | infinity =>
      cases hlevel
  rw [minusBeforePower]
  split
  · rename_i e hparse
    obtain ⟨⟨u, n, -, hderives⟩, -⟩ := parse_eq_ok_iff.mp hparse
    obtain ⟨ends, v, w, -, hfirst, -⟩ := hderives.exists_firstTerm
    rw [hterm hfirst, Bool.not_true, Bool.and_false]
  · exact Bool.and_false _

/-- A sign at the start can be read as an operator after zero. -/
theorem evaluate_afterZero {op : Operator} {x : Float} (hop : op.JoinsTerms)
    (hspace : ' ' ∉ op.sign :: s) (hpower : minusBeforePower g (op.sign :: s) = false)
    (h : evaluate g (op.sign :: s) = .ok x) :
    ∃ y, evaluate g ('0' :: op.sign :: s) = .ok y ∧ SameValue y x := by
  obtain ⟨e, hparse, hderives, hnest, rfl⟩ := derives_of_evaluate hspace h
  have hterm : op = .subtract → e.firstTerm.hasNoPower = true := by
    rintro rfl
    rw [Operator.sign] at hparse hpower
    simpa [minusBeforePower, hparse] using hpower
  obtain ⟨t, ht, hle, hvalue⟩ := hderives.exists_afterZero hop hterm
  exact ⟨t.value, evaluate_of_derives ht (Nat.lt_of_le_of_lt hle hnest), hvalue⟩

/-- No expression goes on with an opening bracket. -/
theorem evaluate_before_bracket (h : Derives g false .sum s e) (hnest : e.nesting < maxNesting)
    (t : Text) : ∃ fault, evaluate g (s ++ '(' :: t) = .error fault :=
  ⟨_, evaluate_before h hnest (by decide) (by decide) (by decide) (by cases g <;> rfl) 0 t⟩

end Calculator.Expression
