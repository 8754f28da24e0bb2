import Calculator.Proofs.Expression.Soundness

/-!
# What is derived is read

Every derivation within the bound on signs and brackets is followed by the readers. A derived text
is read with any text after it that cannot be taken for more of it: no digit may follow at once, and
nothing but spaces where brackets were left open. What comes next is then left to the level above.
-/

namespace Calculator.Expression

variable {g : Grammar}

/-! ## The readers on the first token of a factor -/

theorem readFactor_plus (depth n : Nat) (t : Text) :
    readFactor g (depth + 1) (spaces n ++ '+' :: t) =
      readFactor g depth t >>= fun (e, rest) => .ok (.plus e, rest) := by
  simp only [readFactor, skipSpaces_spaces_append, skipSpaces_cons (show '+' ≠ ' ' by decide)]
  rfl

theorem readFactor_minus (depth n : Nat) (t : Text) :
    readFactor g (depth + 1) (spaces n ++ '-' :: t) =
      readFactor g depth t >>= fun (e, rest) => .ok (.minus e, rest) := by
  simp only [readFactor, skipSpaces_spaces_append, skipSpaces_cons (show '-' ≠ ' ' by decide)]
  rfl

theorem readFactor_open (depth n : Nat) (t : Text) :
    readFactor g (depth + 1) (spaces n ++ '(' :: t) =
      readSum g (readFactor g depth) t >>= fun (e, rest) => .ok (.group e, skipClosing rest) := by
  simp only [readFactor, skipSpaces_spaces_append, skipSpaces_cons (show '(' ≠ ' ' by decide)]
  rfl

theorem readFactor_number (depth n : Nat) {u rest : Text} (hu : Decimal.IsNumeral u)
    (hrest : EndsNumber rest) :
    readFactor g (depth + 1) (spaces n ++ u ++ rest) = .ok (.number (.ofNumeral u), rest) := by
  obtain ⟨d, hd, _⟩ := hu.digit
  cases u with
  | nil => cases hd
  | cons c u =>
    have hc : isNumeric c = true := hu.numeric c (by simp)
    have hne : c ≠ ' ' ∧ c ≠ '+' ∧ c ≠ '-' ∧ c ≠ '(' := by
      refine ⟨?_, ?_, ?_, ?_⟩ <;> rintro rfl <;> revert hc <;> decide
    obtain ⟨hspace, hplus, hminus, hopen⟩ := hne
    have hread := readNumber_append hu hrest
    rw [List.cons_append] at hread
    simp [readFactor, skipSpaces_cons hspace, hplus, hminus, hopen, hc, hread]

theorem readFactor_undefined (depth n : Nat) (rest : Text) :
    readFactor .scientific (depth + 1) (spaces n ++ ['N', 'a', 'N'] ++ rest) =
      .ok (.undefined, rest) := by
  simp [readFactor, skipSpaces_cons (show 'N' ≠ ' ' by decide), readWord,
    show isNumeric 'N' = false by decide]

theorem readFactor_infinity (depth n : Nat) (rest : Text) :
    readFactor .scientific (depth + 1) (spaces n ++ ['i', 'n', 'f'] ++ rest) =
      .ok (.infinity, rest) := by
  simp [readFactor, skipSpaces_cons (show 'i' ≠ ' ' by decide), readWord,
    show isNumeric 'i' = false by decide]

theorem skipClosing_spaces_append (n : Nat) (rest : Text) :
    skipClosing (spaces n ++ ')' :: rest) = rest := by
  simp [skipClosing, skipSpaces_cons (show ')' ≠ ' ' by decide)]

/-! ## Reading along a derivation -/

/-- What may follow a derived text: no digit at once, and nothing but spaces where it is the last
part of its text. -/
def Follows (last : Bool) (rest : Text) : Prop :=
  EndsNumber rest ∧ (last = true → skipSpaces rest = [])

/-- No multiplying operator comes next, so that a term ends here. -/
def EndsTerm (g : Grammar) (rest : Text) : Prop :=
  ∀ c t, skipSpaces rest = c :: t → Operator.ofFactorSign? g c = none

/-- What belongs to no number may follow every closed derivation, after spaces or not. -/
theorem follows_character {c : Char} (hc : isNumeric c = false) (n : Nat) (t : Text) :
    Follows false (spaces n ++ c :: t) := by
  refine ⟨?_, fun h => Bool.noConfusion h⟩
  cases n with
  | zero => exact .cons hc t
  | succ n => exact .cons isNumeric_space _

theorem follows_operator (n : Nat) (op : Operator) (t : Text) :
    Follows false (spaces n ++ op.sign :: t) :=
  follows_character op.sign_not_isNumeric n t

/-- The reader of a level, on a derived text and what follows it, goes on from the derived tree. -/
def FollowedBy (g : Grammar) (s : Text) (e : Expression) (depth : Nat) (rest : Text) :
    Level → Prop
  | .factor => ∃ r, readFactor g depth (s ++ rest) = .ok (e, r) ∧ skipSpaces r = skipSpaces rest
  | .term =>
    readTerm g (readFactor g depth) (s ++ rest) =
      chainOn (Operator.ofFactorSign? g) (readFactor g depth) e rest
  | .sum => EndsTerm g rest →
    readSum g (readFactor g depth) (s ++ rest) =
      chainOn Operator.ofTermSign? (readTerm g (readFactor g depth)) e rest

private theorem readTerm_eq_of_endsTerm {s rest : Text} {e : Expression} {depth : Nat}
    (h : FollowedBy g s e depth rest .term) (hend : EndsTerm g rest) :
    readTerm g (readFactor g depth) (s ++ rest) = .ok (e, skipSpaces rest) := by
  have hread : readTerm g (readFactor g depth) (s ++ rest) =
      chainOn (Operator.ofFactorSign? g) (readFactor g depth) e rest := h
  rw [hread, chainOn_of_stops hend]

theorem skipSpaces_operator (n : Nat) (op : Operator) (t : Text) :
    skipSpaces (spaces n ++ op.sign :: t) = op.sign :: t := by
  rw [skipSpaces_spaces_append, skipSpaces_cons op.sign_ne_space]

theorem endsTerm_of_skipSpaces {s t : Text} {c : Char} (hs : skipSpaces s = c :: t)
    (hc : Operator.ofFactorSign? g c = none) : EndsTerm g s := by
  intro d u hd
  rw [hs] at hd
  cases hd
  exact hc

/-- A sum is read up to a character that is no operator, after spaces or not. -/
theorem readSum_before {s t : Text} {e : Expression} {depth n : Nat} {c : Char}
    (h : FollowedBy g s e depth (spaces n ++ c :: t) .sum) (hspace : c ≠ ' ')
    (hterm : Operator.ofTermSign? c = none) (hfactor : Operator.ofFactorSign? g c = none) :
    readSum g (readFactor g depth) (s ++ (spaces n ++ c :: t)) = .ok (e, c :: t) := by
  have hskip : skipSpaces (spaces n ++ c :: t) = c :: t := by
    rw [skipSpaces_spaces_append, skipSpaces_cons hspace]
  have hread : readSum g (readFactor g depth) (s ++ (spaces n ++ c :: t)) =
      chainOn Operator.ofTermSign? (readTerm g (readFactor g depth)) e (spaces n ++ c :: t) :=
    h (endsTerm_of_skipSpaces hskip hfactor)
  rw [hread, chainOn_of_none hskip hterm]

/-- By induction on the derivation, for every text that may follow. -/
theorem Derives.followedBy {last : Bool} {level : Level} {s : Text} {e : Expression}
    (h : Derives g last level s e) {depth : Nat} (hnest : e.nesting < depth) {rest : Text}
    (hrest : Follows last rest) : FollowedBy g s e depth rest level := by
  induction h generalizing depth rest with
  | @ofTerm last s e _ ih =>
    intro hend
    have hterm := readTerm_eq_of_endsTerm (ih hnest hrest) hend
    rw [readSum, chain_eq, hterm]
    exact chainOn_skipSpaces _ (readTerm_shortens g depth) e (skipSpaces_skipSpaces rest)
  | @addition last s t l r op n hop _ _ ihl ihr =>
    intro hend
    obtain ⟨hnl, hnr⟩ := Nat.max_lt.mp hnest
    have hleft := ihl hnl (follows_operator n op (t ++ rest))
      (endsTerm_of_skipSpaces (skipSpaces_operator n op (t ++ rest)) hop.ofFactorSign?_sign)
    have hright := readTerm_eq_of_endsTerm (ihr hnr hrest) hend
    have hsign := Operator.ofTermSign?_eq_some_iff.mpr ⟨hop, rfl⟩
    have hjoin := chainOn_of_some (readTerm_shortens g depth) l
      (skipSpaces_operator n op (t ++ rest)) hsign hright
    have hskip := chainOn_skipSpaces Operator.ofTermSign? (readTerm_shortens g depth)
      (.binary op l r) (skipSpaces_skipSpaces rest)
    simpa using (hleft.trans hjoin).trans hskip
  | @ofFactor last s e _ ih =>
    obtain ⟨r, hread, hskip⟩ := ih hnest hrest
    have hchain : readTerm g (readFactor g depth) (s ++ rest) =
        chainOn (Operator.ofFactorSign? g) (readFactor g depth) e r := by
      rw [readTerm, chain_eq, hread]
      rfl
    exact hchain.trans (chainOn_skipSpaces _ (readFactor_shortens g depth) e hskip)
  | @product last s t l r op n hop _ _ ihl ihr =>
    obtain ⟨hnl, hnr⟩ := Nat.max_lt.mp hnest
    have hleft : readTerm g (readFactor g depth) (s ++ (spaces n ++ op.sign :: (t ++ rest))) = _ :=
      ihl hnl (follows_operator n op (t ++ rest))
    obtain ⟨rest', hright, hskip⟩ := ihr hnr hrest
    have hsign := Operator.ofFactorSign?_eq_some_iff.mpr ⟨hop, rfl⟩
    have hjoin := chainOn_of_some (readFactor_shortens g depth) l
      (skipSpaces_operator n op (t ++ rest)) hsign hright
    have hrest' := chainOn_skipSpaces (Operator.ofFactorSign? g) (readFactor_shortens g depth)
      (.binary op l r) hskip
    have hall := (hleft.trans hjoin).trans hrest'
    simpa [FollowedBy] using hall
  | @plus last s e n _ ih =>
    obtain ⟨depth, rfl⟩ : ∃ d, depth = d + 1 := ⟨depth - 1, by omega⟩
    obtain ⟨r, hread, hskip⟩ := ih (Nat.lt_of_succ_lt_succ hnest) hrest
    refine ⟨r, ?_, hskip⟩
    rw [List.append_assoc, List.cons_append, readFactor_plus, hread]
    rfl
  | @minus last s e n _ ih =>
    obtain ⟨depth, rfl⟩ : ∃ d, depth = d + 1 := ⟨depth - 1, by omega⟩
    obtain ⟨r, hread, hskip⟩ := ih (Nat.lt_of_succ_lt_succ hnest) hrest
    refine ⟨r, ?_, hskip⟩
    rw [List.append_assoc, List.cons_append, readFactor_minus, hread]
    rfl
  | @group last s e n m _ ih =>
    obtain ⟨depth, rfl⟩ : ∃ d, depth = d + 1 := ⟨depth - 1, by omega⟩
    have hinner : readSum g (readFactor g depth) (s ++ (spaces m ++ ')' :: rest)) =
        .ok (e, ')' :: rest) :=
      readSum_before (ih (Nat.lt_of_succ_lt_succ hnest) (follows_character (by decide) m rest))
        (by decide) (by decide) (by cases g <;> rfl)
    refine ⟨rest, ?_, rfl⟩
    have htext : spaces n ++ '(' :: s ++ spaces m ++ [')'] ++ rest =
        spaces n ++ '(' :: (s ++ (spaces m ++ ')' :: rest)) := by simp
    rw [htext, readFactor_open, hinner]
    exact congrArg (fun r => Except.ok (Expression.group e, r)) (skipClosing_spaces_append 0 rest)
  | @unclosed s e n _ ih =>
    obtain ⟨depth, rfl⟩ : ∃ d, depth = d + 1 := ⟨depth - 1, by omega⟩
    have hend := hrest.2 rfl
    have hinner : readSum g (readFactor g depth) (s ++ rest) = _ :=
      ih (Nat.lt_of_succ_lt_succ hnest) hrest (by simp [EndsTerm, hend])
    rw [chainOn_of_nil hend] at hinner
    refine ⟨[], ?_, hend.symm⟩
    rw [List.append_assoc, List.cons_append, readFactor_open, hinner]
    rfl
  | @number last s n hs =>
    obtain ⟨depth, rfl⟩ : ∃ d, depth = d + 1 := ⟨depth - 1, by omega⟩
    exact ⟨rest, readFactor_number depth n hs hrest.1, rfl⟩
  | @undefined last n hg =>
    obtain ⟨depth, rfl⟩ : ∃ d, depth = d + 1 := ⟨depth - 1, by omega⟩
    subst hg
    exact ⟨rest, readFactor_undefined depth n rest, rfl⟩
  | @infinity last n hg =>
    obtain ⟨depth, rfl⟩ : ∃ d, depth = d + 1 := ⟨depth - 1, by omega⟩
    subst hg
    exact ⟨rest, readFactor_infinity depth n rest, rfl⟩

/-- A derived text with at most 255 signs and brackets around each of its numbers is read as a
whole, with the tree of its derivation. -/
theorem parse_of_accepts {s : Text} {e : Expression} (h : Accepts g s e)
    (hnest : e.nesting < maxNesting) : parse g s = .ok e := by
  obtain ⟨u, n, rfl, hD⟩ := h
  have hfollows : Follows true (spaces n) := by
    refine ⟨?_, fun _ => skipSpaces_spaces n⟩
    intro c t hc
    cases n with
    | zero => cases hc
    | succ n =>
      cases hc
      exact isNumeric_space
  have hread : readSum g (readFactor g maxNesting) (u ++ spaces n) = _ :=
    hD.followedBy hnest hfollows (by simp [EndsTerm])
  rw [chainOn_of_nil (skipSpaces_spaces n)] at hread
  simp only [parse, hread]
  rfl

end Calculator.Expression
