import Calculator.Proofs.Expression.Evaluation

/-!
# Closing brackets that are left out

A derived text opens at least as many brackets as it closes. Brackets that it leaves open can be
closed at its end, the innermost one first, some of them or all, and the tree stays the same. Once
all of them are closed, one closing bracket more is a fault at its own place.
-/

namespace Calculator.Expression

variable {g : Grammar} {last last' : Bool} {level : Level} {s : Text} {e : Expression} {j k : ℕ}

/-! ## Counting brackets -/

theorem count_spaces {c : Char} (hc : c ≠ ' ') (n : ℕ) : (spaces n).count c = 0 :=
  List.count_eq_zero.mpr fun h => hc (List.eq_of_mem_replicate h)

/-- Spaces and an operator between two texts add no brackets. -/
theorem count_operator {c : Char} (hc : c = '(' ∨ c = ')') (s t : Text) (n : ℕ) (op : Operator) :
    (s ++ spaces n ++ op.sign :: t).count c = s.count c + t.count c := by
  have hsign : op.sign ≠ c := by rcases hc with rfl | rfl <;> cases op <;> decide
  have hspace : c ≠ ' ' := by rcases hc with rfl | rfl <;> decide
  simp [count_spaces hspace, hsign]

theorem count_sign {c d : Char} (n : ℕ) (hspace : c ≠ ' ') (hne : d ≠ c) :
    (spaces n ++ d :: s).count c = s.count c := by
  rw [List.count_append, count_spaces hspace, List.count_cons_of_ne hne, Nat.zero_add]

theorem count_numeral {c : Char} (h : Decimal.IsNumeral s)
    (hc : isNumeric c = false) : s.count c = 0 :=
  List.count_eq_zero.mpr fun hmem => by simp [h.numeric c hmem] at hc

/-- A derived text closes no more brackets than it opens, and all of them unless it ends the whole
text. -/
theorem Derives.count_brackets (h : Derives g last level s e) :
    s.count ')' ≤ s.count '(' ∧ (last = false → s.count '(' = s.count ')') := by
  induction h with
  | ofTerm _ ih | ofFactor _ ih => exact ih
  | addition n _ _ _ ihl ihr | product n _ _ _ ihl ihr =>
    have hleft := ihl.2 rfl
    rw [count_operator (.inl rfl), count_operator (.inr rfl), hleft]
    exact ⟨Nat.add_le_add_left ihr.1 _, fun hlast => by rw [ihr.2 hlast]⟩
  | plus n _ ih | minus n _ ih => simpa [count_spaces] using ih
  | group n m _ ih =>
    have hinner := ih.2 rfl
    simp [count_spaces, hinner]
  | unclosed n _ ih =>
    refine ⟨?_, Bool.noConfusion⟩
    simpa [count_spaces] using Nat.le_succ_of_le ih.1
  | number n h =>
    simp [count_spaces, count_numeral h (show isNumeric '(' = false by decide),
      count_numeral h (show isNumeric ')' = false by decide)]
  | undefined n _ | infinity n _ => simp [count_spaces]

/-! ## Closing them -/

/-- Closing brackets, with spaces before each of them or none. -/
inductive Closings : ℕ → Text → Prop
  | nil : Closings 0 []
  | snoc {j w} (h : Closings j w) (n : ℕ) : Closings (j + 1) (w ++ spaces n ++ [')'])

theorem Closings.eq_nil {w : Text} (h : Closings 0 w) : w = [] := by
  cases h
  rfl

/-- So many of the brackets that a text leaves open can be closed at its end. A text that stands
before others has to have all of them closed. -/
structure CanClose (last : Bool) (s : Text) (j : ℕ) : Prop where
  le : s.count ')' + j ≤ s.count '('
  all : last = false → s.count '(' = s.count ')' + j

namespace CanClose

/-- After an operator all brackets that are open stand on its right. -/
theorem of_operator {t : Text} {n : ℕ} {op : Operator}
    (h : CanClose last (s ++ spaces n ++ op.sign :: t) j) (hs : s.count '(' = s.count ')') :
    CanClose last t j := by
  have hle := h.le
  rw [count_operator (.inl rfl), count_operator (.inr rfl)] at hle
  refine ⟨by omega, fun hlast => ?_⟩
  have hall := h.all hlast
  rw [count_operator (.inl rfl), count_operator (.inr rfl)] at hall
  omega

theorem of_sign {c : Char} {n : ℕ} (h : CanClose last (spaces n ++ c :: s) j) (hopen : c ≠ '(')
    (hclose : c ≠ ')') : CanClose last s j := by
  obtain ⟨hle, hall⟩ := h
  rw [count_sign n (by decide) hopen, count_sign n (by decide) hclose] at hle hall
  exact ⟨hle, hall⟩

theorem of_bracket {n : ℕ} (h : CanClose last (spaces n ++ '(' :: s) j) :
    s.count ')' + j ≤ s.count '(' + 1 ∧ (last = false → s.count '(' + 1 = s.count ')' + j) := by
  have hopen : (spaces n ++ '(' :: s).count '(' = s.count '(' + 1 := by simp [count_spaces]
  have hclose : (spaces n ++ '(' :: s).count ')' = s.count ')' :=
    count_sign n (by decide) (by decide)
  obtain ⟨hle, hall⟩ := h
  rw [hopen, hclose] at hle hall
  exact ⟨hle, hall⟩

end CanClose

/-- Nothing can be closed after a text that is derived with all of its brackets closed. -/
private theorem Derives.append_none (h : ∀ last, Derives g last level s e) {w : Text}
    (hw : Closings j w) (hj : CanClose last' s j) : Derives g last' level (s ++ w) e := by
  have hclosed := (h false).count_brackets.2 rfl
  have hle := hj.le
  obtain rfl : j = 0 := by omega
  rw [hw.eq_nil, List.append_nil]
  exact h last'

/-- By induction on the derivation: brackets that a text leaves open can be closed at its end. -/
theorem Derives.append_closings (h : Derives g last level s e) {w : Text} (hw : Closings j w)
    (hj : CanClose last' s j) : Derives g last' level (s ++ w) e := by
  induction h generalizing j w last' with
  | ofTerm _ ih => exact .ofTerm (ih hw hj)
  | ofFactor _ ih => exact .ofFactor (ih hw hj)
  | addition n hop hl _ _ ih =>
    rw [List.append_assoc, List.cons_append]
    exact .addition n hop hl (ih hw (hj.of_operator (hl.count_brackets.2 rfl)))
  | product n hop hl _ _ ih =>
    rw [List.append_assoc, List.cons_append]
    exact .product n hop hl (ih hw (hj.of_operator (hl.count_brackets.2 rfl)))
  | plus n _ ih =>
    rw [List.append_assoc, List.cons_append]
    exact .plus n (ih hw (hj.of_sign (by decide) (by decide)))
  | minus n _ ih =>
    rw [List.append_assoc, List.cons_append]
    exact .minus n (ih hw (hj.of_sign (by decide) (by decide)))
  | group n m h _ => exact append_none (fun _ => .group n m h) hw hj
  | @unclosed s e n h ih =>
    have hinside := h.count_brackets.1
    obtain ⟨hle, hall⟩ := hj.of_bracket
    cases hw with
    | nil =>
      cases last' with
      | false =>
        have hclosed := hall rfl
        omega
      | true =>
        rw [List.append_nil]
        exact .unclosed n h
    | @snoc j w hw m =>
      by_cases hlast : s.count '(' = s.count ')' + j
      · -- the last bracket closes this one, and the others all that are inside
        have hinner : Derives g false .sum (s ++ w) e :=
          ih hw ⟨Nat.le_of_eq hlast.symm, fun _ => hlast⟩
        have hgroup : Derives g last' .factor (spaces n ++ '(' :: (s ++ w) ++ spaces m ++ [')'])
            (.group e) := .group n m hinner
        simpa using hgroup
      · -- this one stays open
        cases last' with
        | false =>
          have hclosed := hall rfl
          omega
        | true =>
          have hinner : Derives g true .sum (s ++ (w ++ spaces m ++ [')'])) e :=
            ih (hw.snoc m) ⟨by omega, Bool.noConfusion⟩
          simpa using Derives.unclosed n hinner
  | number n h => exact append_none (fun _ => .number n h) hw hj
  | undefined n hg => exact append_none (fun _ => .undefined n hg) hw hj
  | infinity n hg => exact append_none (fun _ => .infinity n hg) hw hj

/-- Closing brackets after spaces, of which those before no bracket are left over. -/
theorem exists_closings (n j : ℕ) : ∃ w m, Closings j w ∧
    spaces n ++ List.replicate j ')' = w ++ spaces m := by
  induction j with
  | zero => exact ⟨[], n, .nil, by simp⟩
  | succ j ih =>
    obtain ⟨w, m, hw, heq⟩ := ih
    refine ⟨w ++ spaces m ++ [')'], 0, hw.snoc m, ?_⟩
    rw [List.replicate_succ', ← List.append_assoc, heq, show spaces 0 = [] from rfl,
      List.append_nil]

/-- **Closing brackets that are left out can be added, and no more.** A text with a value closes no
more brackets than it opens. It keeps its value with closing brackets at its end, as many as are
left open or fewer, and with more of them the first one too many is a fault. -/
theorem evaluate_append_closings {x : Float} (h : evaluate g s = .ok x) :
    ∃ k, s.count '(' = s.count ')' + k ∧
      (∀ j ≤ k, evaluate g (s ++ List.replicate j ')') = .ok x) ∧
      ∀ j > k, (evaluate g (s ++ List.replicate j ')')).mapError Failure.ofUnexpected =
        .error (.unexpected (s.length + k) "')'") := by
  obtain ⟨e, hparse, rfl⟩ := evaluate_eq_ok h
  obtain ⟨⟨u, n, rfl, hderives⟩, hnest⟩ := parse_eq_ok_iff.mp hparse
  have hcount : (u ++ spaces n).count '(' = u.count '(' ∧
      (u ++ spaces n).count ')' = u.count ')' := by simp [count_spaces]
  rw [hcount.1, hcount.2]
  obtain ⟨k, hk⟩ := Nat.exists_eq_add_of_le hderives.count_brackets.1
  refine ⟨k, hk, fun j hj => ?_, fun j hj => ?_⟩
  · obtain ⟨w, m, hw, heq⟩ := exists_closings n j
    rw [List.append_assoc, heq, ← List.append_assoc]
    exact evaluate_of_accepts
      ⟨_, m, rfl, hderives.append_closings hw ⟨by omega, Bool.noConfusion⟩⟩ hnest
  · obtain ⟨w, m, hw, heq⟩ := exists_closings n k
    obtain ⟨i, rfl⟩ : ∃ i, j = k + (1 + i) := ⟨j - k - 1, by omega⟩
    have hclosed : Derives g false .sum (u ++ w) e :=
      hderives.append_closings hw ⟨Nat.le_of_eq hk.symm, fun _ => hk⟩
    have htext : u ++ spaces n ++ List.replicate (k + (1 + i)) ')' =
        u ++ w ++ (spaces m ++ ')' :: List.replicate i ')') := by
      rw [← List.replicate_append_replicate, ← List.append_assoc, List.append_assoc u, heq,
        Nat.add_comm 1, List.replicate_succ]
      simp
    have hplace : (u ++ w).length + m = (u ++ spaces n).length + k := by
      have hlength := congrArg List.length heq
      simp only [List.length_append, spaces, List.length_replicate] at hlength ⊢
      omega
    rw [htext, evaluate_before hclosed hnest (by decide) (by decide) (by decide)
      (by cases g <;> rfl), hplace]
    rfl

/-- `6*-((2+1 ` leaves two brackets open. -/
theorem evaluate_append_closings_product :
    evaluate .scientific "6*-((2+1 ".toList = .ok (-18) ∧
      evaluate .scientific "6*-((2+1 ))".toList = .ok (-18) ∧
      (evaluate .scientific "6*-((2+1 ))))".toList).mapError Failure.ofUnexpected =
        .error (.unexpected 11 "')'") := by
  have hvalue : evaluate .scientific "6*-((2+1 ".toList = .ok (-18) := by decide +kernel
  obtain ⟨k, hcount, hclosed, hsurplus⟩ := evaluate_append_closings hvalue
  obtain rfl : 2 = k := Nat.add_left_cancel (n := 0) hcount
  exact ⟨hvalue, hclosed 2 (by decide), hsurplus 4 (by decide)⟩

end Calculator.Expression
