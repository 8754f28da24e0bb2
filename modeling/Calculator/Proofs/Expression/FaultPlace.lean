import Calculator.Proofs.Expression.Evaluation
import Calculator.Proofs.Expression.Fault

/-!
# The text before a fault

A fault stands at the first place where no expression can go on. Either an operand may start there,
so that the text up to the fault and any number after it are an expression, or a reading has stopped
there, and then the text up to the fault is an expression itself. Only the fault of too many signs
and brackets says nothing about the text before it.
-/

namespace Calculator.Expression

variable {g : Grammar} {operator? : Char → Option Operator} {operand : Text → Reading}
  {D D' Dop : Bool → Text → Expression → Prop} {s t w rest : Text} {e left right : Expression}
  {c : Char} {depth : ℕ}

/-- What a reading of the text `s` shows about the text before the place where it ends. -/
inductive Supports (D : Bool → Text → Expression → Prop) (s : Text) : Reading → Prop
  /-- What was read is derived, with brackets left open or not. -/
  | read {e : Expression} {rest : Text} (u : Text) (n : ℕ) (hs : s = u ++ spaces n ++ rest)
    (h : D true u e) : Supports D s (.ok (e, rest))
  /-- At the fault a number may start. -/
  | fault {stop : Stop} (u : Text) (hs : s = u ++ stop.rest) (hstart : EndsNumber u.reverse)
    (e : Expression) (h : D true (u ++ ['1']) e) : Supports D s (.error stop)
  /-- There are too many signs and brackets. -/
  | nesting (rest : Text) : Supports D s (.error ⟨rest, .nesting⟩)

theorem Supports.imp {reading : Reading} (h : Supports D s reading)
    (hD : ∀ u e, D true u e → D' true u e) : Supports D' s reading := by
  cases h with
  | read u n hs h => exact .read u n hs (hD _ _ h)
  | fault u hs hstart e h => exact .fault u hs hstart e (hD _ _ h)
  | nesting rest => exact .nesting rest

theorem Supports.skipSpaces (h : Supports D w (.ok (e, s))) :
    Supports D w (.ok (e, skipSpaces s)) := by
  obtain ⟨m, hm⟩ := skipSpaces_split s
  cases h with
  | read u n hw h =>
    refine .read u (n + m) ?_ h
    rw [spaces_add, List.append_assoc, List.append_assoc, ← hm, ← List.append_assoc, ← hw]

/-- A reading goes on in a longer text, after a character that belongs to no number. -/
theorem Supports.bind {reading : Reading} {next : Expression × Text → Reading} {p : Text}
    {f : Expression → Expression} (h : Supports D t reading) (hc : isNumeric c = false)
    (hD : ∀ u e, D true u e → D' true (p ++ c :: u) (f e))
    (hnext : ∀ e rest, reading = .ok (e, rest) → Supports D' (p ++ c :: t) (.ok (f e, rest)) →
      Supports D' (p ++ c :: t) (next (e, rest))) :
    Supports D' (p ++ c :: t) (reading >>= next) := by
  cases h with
  | read u n ht h => exact hnext _ _ rfl (.read (p ++ c :: u) n (by simp [ht]) (hD _ _ h))
  | @fault stop u ht hstart e h =>
    refine .fault (p ++ c :: u) (by simp [ht]) ?_ (f e) (by simpa using hD _ _ h)
    rw [List.reverse_append, List.reverse_cons, List.append_assoc]
    exact hstart.append (.cons hc _)
  | nesting rest => exact .nesting rest

/-! ## Chains -/

/-- By induction on the number of operators: a chain that goes on from a supported reading. -/
theorem Joins.chainFrom_supports (h : Joins g operator? Dop D)
    (hexplains : ∀ s e rest, operand s = .ok (e, rest) → Explains g Dop s e rest)
    (hsupports : ∀ s, Supports Dop s (operand s)) (limit : ℕ) (hleft : Explains g D w left s)
    (hread : Supports D w (.ok (left, s))) :
    Supports D w (chainFrom operator? operand limit left s) := by
  induction limit generalizing left s with
  | zero => exact hread
  | succ limit ih =>
    have hleft := hleft.skipSpaces
    have hread := hread.skipSpaces
    simp only [chainFrom]
    cases hs : Expression.skipSpaces s with
    | nil => rwa [hs] at hread
    | cons c t =>
      rw [hs] at hleft hread
      dsimp only
      cases hc : operator? c with
      | none => exact hread
      | some op =>
        obtain ⟨u, n, rfl, hD⟩ := h.exists_closed hleft hc
        refine (hsupports t).bind (f := .binary op left) (h.notNumeric hc)
          (fun v e hv => h.join n hc hD hv) fun right rest hright hread' => ?_
        exact ih (h.explains hleft hc (hexplains _ _ _ hright)) hread'

theorem Joins.chain_supports (h : Joins g operator? Dop D)
    (hexplains : ∀ s e rest, operand s = .ok (e, rest) → Explains g Dop s e rest)
    (hsupports : ∀ s, Supports Dop s (operand s))
    (hsingle : ∀ last u e, Dop last u e → D last u e) (s : Text) :
    Supports D s (chain operator? operand s) := by
  have hfirst := (hsupports s).imp (hsingle true)
  rw [chain]
  cases hoperand : operand s with
  | error stop => rwa [hoperand] at hfirst
  | ok reading =>
    rw [hoperand] at hfirst
    have hleft : Explains g D s reading.1 reading.2 :=
      (hexplains _ _ _ hoperand).prepend (p := []) (f := id) fun last u => hsingle last u _
    exact h.chainFrom_supports hexplains hsupports _ hleft hfirst

theorem readSum_supports (hsupports : ∀ s, Supports (DerivesWithin g depth .factor) s
      (readFactor g depth s)) (s : Text) :
    Supports (DerivesWithin g depth .sum) s (readSum g (readFactor g depth) s) := by
  refine (joins_terms g depth).chain_supports
    (fun _ _ _ => readTerm_explains (readFactor_explains depth)) (fun s => ?_)
    (fun _ _ _ h => ⟨.ofTerm h.1, h.2⟩) s
  exact (joins_factors g depth).chain_supports (readFactor_explains depth) hsupports
    (fun _ _ _ h => ⟨.ofFactor h.1, h.2⟩) s

/-! ## Factors -/

/-- Where a factor starts, a number may start. -/
theorem supports_start (depth n : ℕ) (stop : Stop) :
    Supports (DerivesWithin g (depth + 1) .factor) (spaces n ++ stop.rest) (.error stop) := by
  have hstart : EndsNumber (spaces n).reverse := by
    rw [spaces, List.reverse_replicate]
    cases n with
    | zero => exact .nil
    | succ n => exact .cons isNumeric_space _
  have hone : Decimal.IsNumeral ['1'] :=
    .of_digits (List.forall_mem_singleton.mpr (by decide)) (List.cons_ne_nil _ _)
  exact .fault (spaces n) rfl hstart _ ⟨.number n hone, Nat.succ_pos _⟩

theorem readNumber_eq_error {stop : Stop} (h : readNumber s = .error stop) : stop.rest = s := by
  unfold readNumber at h
  dsimp only at h
  split at h
  · cases h
  · cases h
    rfl

theorem readWord_eq_error {stop : Stop} (h : readWord g s = .error stop) : stop.rest = s := by
  unfold readWord at h
  split at h
  · cases h
  · cases h
  · cases h
    cases s <;> rfl

/-- A closing bracket that comes next is skipped with the spaces before it. -/
theorem skipClosing_cases (s : Text) :
    skipClosing s = skipSpaces s ∨ skipSpaces s = ')' :: skipClosing s := by
  unfold skipClosing
  split
  · rename_i rest hs
    exact .inr hs
  · exact .inl rfl

theorem group_supports {n : ℕ} (hinner : Explains g (DerivesWithin g depth .sum) t e rest)
    (h : Supports (DerivesWithin g (depth + 1) .factor) (spaces n ++ '(' :: t)
      (.ok (.group e, rest))) :
    Supports (DerivesWithin g (depth + 1) .factor) (spaces n ++ '(' :: t)
      (.ok (.group e, skipClosing rest)) := by
  rcases skipClosing_cases rest with hopen | hclosed
  · rw [hopen]
    exact h.skipSpaces
  · have hinner := hinner.skipSpaces
    rw [hclosed] at hinner
    cases hinner with
    | closed u m ht hD =>
      refine .read (spaces n ++ '(' :: u ++ spaces m ++ [')']) 0 (by simp [ht, spaces]) ?_
      exact ⟨.group n m hD.1, Nat.succ_lt_succ hD.2⟩
    | ended _ _ _ hrest => cases hrest
    | stuck hs =>
      obtain ⟨_, _, heq, _, hne, _⟩ := hs
      cases heq
      exact absurd rfl hne

/-- By induction on the bound on signs and brackets. -/
theorem readFactor_supports (g : Grammar) (depth : ℕ) (s : Text) :
    Supports (DerivesWithin g depth .factor) s (readFactor g depth s) := by
  induction depth generalizing s with
  | zero => exact .nesting s
  | succ depth ih =>
    obtain ⟨n, hn⟩ := skipSpaces_split s
    unfold readFactor
    cases hs : skipSpaces s with
    | nil =>
      rw [hn, hs]
      exact supports_start depth n (.at [])
    | cons c t =>
      rw [hn, hs]
      dsimp only
      split
      · rename_i hc
        subst hc
        exact (ih t).bind (by decide) (fun u e h => ⟨.plus n h.1, Nat.succ_lt_succ h.2⟩)
          fun _ _ _ h => h
      split
      · rename_i hc
        subst hc
        exact (ih t).bind (by decide) (fun u e h => ⟨.minus n h.1, Nat.succ_lt_succ h.2⟩)
          fun _ _ _ h => h
      split
      · rename_i hc
        subst hc
        exact (readSum_supports ih t).bind (by decide)
          (fun u e h => ⟨.unclosed n h.1, Nat.succ_lt_succ h.2⟩)
          fun _ _ hread => group_supports (readSum_explains (readFactor_explains depth) hread)
      split
      · cases hread : readNumber (c :: t) with
        | error stop =>
          rw [← readNumber_eq_error hread]
          exact supports_start depth n stop
        | ok reading =>
          obtain ⟨e, rest⟩ := reading
          obtain ⟨u, hu, htext, rfl⟩ := readNumber_eq_ok hread
          exact .read (spaces n ++ u) 0 (by simp [htext, spaces]) ⟨.number n hu, Nat.succ_pos _⟩
      · cases hread : readWord g (c :: t) with
        | error stop =>
          rw [← readWord_eq_error hread]
          exact supports_start depth n stop
        | ok reading =>
          obtain ⟨e, rest⟩ := reading
          obtain ⟨hg, ⟨htext, rfl⟩ | ⟨htext, rfl⟩⟩ := readWord_eq_ok hread
          · exact .read (spaces n ++ ['N', 'a', 'N']) 0 (by simp [htext, spaces])
              ⟨.undefined n hg, Nat.succ_pos _⟩
          · exact .read (spaces n ++ ['i', 'n', 'f']) 0 (by simp [htext, spaces])
              ⟨.infinity n hg, Nat.succ_pos _⟩

/-! ## Faults of texts -/

/-- The text before a fault is an expression, or a number may start at the fault and completes it. A
number that is read wrongly starts there. -/
theorem evaluate_take_position {u : Unexpected} (h : parse g s = .error u)
    (hne : u.found ≠ .nesting) :
    (∃ x, evaluate g (s.take u.position) = .ok x) ∧ (∀ run, u.found ≠ .numeral run) ∨
      (∃ x, evaluate g (s.take u.position ++ ['1']) = .ok x) ∧
        EndsNumber (s.take u.position).reverse := by
  have htake (p rest : Text) : (p ++ rest).take ((p ++ rest).length - rest.length) = p := by simp
  have hsum := readSum_supports (readFactor_supports g maxNesting) s
  unfold parse at h
  generalize readSum g (readFactor g maxNesting) s = reading at h hsum
  cases hsum with
  | @read e rest v n hs hD =>
    cases rest with
    | nil => cases h
    | cons c rest =>
      cases h
      subst hs
      dsimp only [Stop.at]
      rw [htake]
      refine .inl ⟨⟨_, evaluate_of_accepts ⟨v, n, rfl, hD.1⟩ hD.2⟩, ?_⟩
      rintro run ⟨⟩
  | @fault stop v hs hstart e hD =>
    cases h
    subst hs
    dsimp only
    rw [htake]
    exact .inr ⟨⟨_, evaluate_of_derives hD.1 hD.2⟩, hstart⟩
  | nesting rest =>
    cases h
    exact absurd rfl hne

theorem endsNumber_dropWhile (s : Text) : EndsNumber (s.dropWhile isNumeric) := by
  intro c t h
  have hne : s.dropWhile isNumeric ≠ [] := by simp [h]
  simpa [h] using List.head_dropWhile_not isNumeric hne

/-- A maximal run of digits and points that starts at a place of a text. -/
structure IsRunAt (s : Text) (place : ℕ) (run : Text) : Prop where
  nonempty : run ≠ []
  numeric : ∀ c ∈ run, isNumeric c = true
  maximal : ∃ before after, s = before ++ run ++ after ∧ before.length = place ∧
    EndsNumber before.reverse ∧ EndsNumber after

/-- **A syntax error points at the first place where no expression can go on.** What is found there
is the end of the text, a character, a run of digits and points that is no number, or too many signs
and brackets. Unless it is the last of these, the text before the place is an expression, or becomes
one with a `1` after it. -/
theorem evaluate_fault_place {place : ℕ} {found : Text}
    (h : (evaluate g s).mapError Failure.ofUnexpected = .error (.unexpected place found)) :
    place ≤ s.length ∧
      (found = "end of input" ∧ place = s.length ∨
        (∃ c, s[place]? = some c ∧ found = "'" ++ [c] ++ "'") ∨
        (∃ run, IsRunAt s place run ∧ ¬Decimal.IsNumeral run ∧
          found = "number '" ++ run ++ "'") ∨
        found = "nesting deeper than 256") ∧
      (found ≠ "nesting deeper than 256" →
        (∃ x, evaluate g (s.take place) = .ok x) ∨
          ∃ x, evaluate g (s.take place ++ ['1']) = .ok x) := by
  obtain ⟨u, hu, rfl, rfl⟩ : ∃ u, evaluate g s = .error u ∧ u.position = place ∧
      u.found.text = found := by
    cases heval : evaluate g s with
    | ok x =>
      rw [heval] at h
      cases h
    | error u =>
      rw [heval] at h
      cases h
      exact ⟨u, rfl, rfl, rfl⟩
  have hparse := evaluate_eq_error hu
  have hbefore := evaluate_take_position hparse
  have hnesting : Found.nesting.text = "nesting deeper than 256" := by decide
  refine ⟨?_, ?_, fun hne => ?_⟩
  · obtain ⟨rest, -, hplace, -⟩ := parse_eq_error hparse
    omega
  · obtain ⟨rest, ⟨p, rfl⟩, hplace, hreports⟩ := parse_eq_error hparse
    have hplace : u.position = p.length := by simp [hplace]
    rw [hplace] at hbefore ⊢
    generalize u.found = found at hreports hbefore
    cases hreports with
    | ending => exact .inl ⟨rfl, by simp⟩
    | character c rest => exact .inr (.inl ⟨c, by simp, rfl⟩)
    | numeral hne hnot =>
      right
      right
      left
      refine ⟨_, ⟨hne, List.all_eq_true.mp List.all_takeWhile, ?_⟩, hnot, rfl⟩
      refine ⟨p, _, ?_, rfl, ?_, endsNumber_dropWhile rest⟩
      · rw [List.append_assoc, List.takeWhile_append_dropWhile]
      · rcases hbefore (Found.noConfusion ·) with ⟨-, hnever⟩ | ⟨-, hstart⟩
        · exact absurd rfl (hnever _)
        · rwa [List.take_left] at hstart
    | nesting => exact .inr (.inr (.inr hnesting))
  · have hfound : u.found ≠ .nesting := by
      intro hfound
      rw [hfound] at hne
      exact hne hnesting
    exact (hbefore hfound).imp And.left And.left

/-- In `2*(3+ .)` the point at the sixth place is no number. -/
theorem evaluate_fault_place_point :
    (evaluate .scientific "2*(3+ .)".toList).mapError Failure.ofUnexpected =
        .error (.unexpected 6 "number '.'") ∧
      6 ≤ "2*(3+ .)".toList.length ∧ ∃ x, evaluate .scientific "2*(3+ 1".toList = .ok x := by
  have hfault : (evaluate .scientific "2*(3+ .)".toList).mapError Failure.ofUnexpected =
      .error (.unexpected 6 "number '.'") ∧
      evaluate .scientific "2*(3+ ".toList = .error ⟨6, .ending⟩ := by decide +kernel
  obtain ⟨hle, -, hbefore⟩ := evaluate_fault_place hfault.1
  refine ⟨hfault.1, hle, (hbefore (by decide)).resolve_left ?_⟩
  rintro ⟨x, hx⟩
  cases hfault.2.symm.trans hx

end Calculator.Expression
