import Calculator.Proofs.Expression.Pieces

/-!
# Points in an expression

Every point of an expression belongs to a number of its own, since numbers do not stand next to each
other. So a run of digits and points anywhere in an expression has at most one point. A text keeps
this property when texts without points are joined to it, and when a point is written after it
unless the number at its end has one.
-/

namespace Calculator.Expression

variable {g : Grammar} {last : Bool} {level : Level} {s t : Text} {e : Expression}

/-- No run of digits and points has two points. -/
def HasSinglePoints (s : Text) : Prop :=
  ∀ run, run <:+: s → (∀ c ∈ run, isNumeric c = true) → run.count '.' ≤ 1

/-- The number at the end of a text has a point. -/
def HasPointAtEnd (s : Text) : Prop :=
  ∃ run, run <:+ s ∧ (∀ c ∈ run, isNumeric c = true) ∧ '.' ∈ run

/-! ## Texts put together -/

namespace HasSinglePoints

theorem of_infix (hs : HasSinglePoints s) (ht : t <:+: s) : HasSinglePoints t :=
  fun run hrun => hs run (hrun.trans ht)

theorem of_count (hs : s.count '.' ≤ 1) : HasSinglePoints s :=
  fun _ hrun _ => Nat.le_trans (hrun.count_le '.') hs

/-- Two texts are joined if the points of a number that crosses the join are counted. -/
theorem append (hs : HasSinglePoints s) (ht : HasSinglePoints t)
    (hjoin : ∀ u v, u <:+ s → v <+: t → (∀ c ∈ u ++ v, isNumeric c = true) →
      (u ++ v).count '.' ≤ 1) : HasSinglePoints (s ++ t) := by
  intro run hrun hnumeric
  rcases List.infix_append_iff.mp hrun with hleft | hright | ⟨u, v, rfl, hu, hv⟩
  · exact hs run hleft hnumeric
  · exact ht run hright hnumeric
  · exact hjoin u v hu hv hnumeric

theorem of_not_mem (hs : '.' ∉ s) : HasSinglePoints s :=
  of_count (by rw [List.count_eq_zero.mpr hs]; exact Nat.zero_le 1)

theorem append_of_not_mem (hs : HasSinglePoints s) (ht : '.' ∉ t) : HasSinglePoints (s ++ t) := by
  refine hs.append (of_not_mem ht) fun u v hu hv hnumeric => ?_
  have hnone : v.count '.' = 0 := List.count_eq_zero.mpr fun hmem => ht (hv.subset hmem)
  rw [List.count_append, hnone]
  exact hs u hu.isInfix (List.forall_mem_append.mp hnumeric).1

theorem of_not_mem_append (hs : '.' ∉ s) (ht : HasSinglePoints t) : HasSinglePoints (s ++ t) := by
  refine (of_not_mem hs).append ht fun u v hu hv hnumeric => ?_
  have hnone : u.count '.' = 0 := List.count_eq_zero.mpr fun hmem => hs (hu.subset hmem)
  rw [List.count_append, hnone, Nat.zero_add]
  exact ht v hv.isInfix (List.forall_mem_append.mp hnumeric).2

/-- A point after a number without one. -/
theorem append_point (hs : HasSinglePoints s) (hnumber : ¬HasPointAtEnd s) :
    HasSinglePoints (s ++ ['.']) := by
  refine hs.append (of_count (by decide)) fun u v hu hv hnumeric => ?_
  have hnone : u.count '.' = 0 := List.count_eq_zero.mpr fun hmem =>
    hnumber ⟨u, hu, (List.forall_mem_append.mp hnumeric).1, hmem⟩
  rw [List.count_append, hnone, Nat.zero_add]
  exact hv.isInfix.count_le '.'

end HasSinglePoints

/-! ## Expressions -/

theorem OperandsApart.hasSinglePoints (h : OperandsApart s) : HasSinglePoints s := by
  intro run hrun hnumeric
  cases h run hrun fun c hc => by simp [isEdge, hnumeric c hc] with
  | number _ hpoint => exact hpoint
  | letter => exact List.count_le_length

/-- Every point of a text belongs to a number of its own. -/
theorem Derives.hasSinglePoints (h : Derives g last level s e) : HasSinglePoints s :=
  (isJoined_operandsApart.of_derives h).hasSinglePoints

end Calculator.Expression
