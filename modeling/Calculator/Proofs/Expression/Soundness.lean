import Calculator.Proofs.Expression.Reading

/-!
# What is read is derived

Every successful reading of a whole text has a derivation in the grammar. On the way a reader may
also succeed without one: it goes on after a bracket that is not closed although the text has not
ended. Such a reading leaves a character on which nothing can go on, so it never consumes its text.
-/

namespace Calculator.Expression

variable {g : Grammar} {operator? : Char → Option Operator} {operand : Text → Reading}

/-- A text that starts with a character on which no reader goes on: no space, no closing bracket and
no operator. -/
def Stuck (g : Grammar) (s : Text) : Prop :=
  ∃ c t, s = c :: t ∧ c ≠ ' ' ∧ c ≠ ')' ∧
    Operator.ofTermSign? c = none ∧ Operator.ofFactorSign? g c = none

/-- What a reading of the text `w` with the tree `e` that leaves `rest` amounts to. -/
inductive Explains (g : Grammar) (D : Bool → Text → Expression → Prop) (w : Text)
    (e : Expression) (rest : Text) : Prop
  /-- What was read is derived with all brackets closed. -/
  | closed (u : Text) (n : Nat) (hw : w = u ++ spaces n ++ rest) (h : D false u e)
  /-- The text has ended, and what was read is derived with brackets left open or not. -/
  | ended (u : Text) (n : Nat) (hw : w = u ++ spaces n) (hrest : rest = []) (h : D true u e)
  /-- Nothing can go on. -/
  | stuck (h : Stuck g rest)

/-- A reading is explained in a longer text by what is put before it. -/
theorem Explains.prepend {D D' : Bool → Text → Expression → Prop} {f : Expression → Expression}
    {p w rest : Text} {e : Expression} (hD : ∀ last u, D last u e → D' last (p ++ u) (f e))
    (h : Explains g D w e rest) : Explains g D' (p ++ w) (f e) rest := by
  cases h with
  | closed u n hw h => exact .closed (p ++ u) n (by simp [hw]) (hD _ _ h)
  | ended u n hw hrest h => exact .ended (p ++ u) n (by simp [hw]) hrest (hD _ _ h)
  | stuck h => exact .stuck h

/-! ## Where a reader stops -/

/-- A text that starts neither with a space nor with an operator. -/
def StopsAt (operator? : Char → Option Operator) (s : Text) : Prop :=
  ∀ c t, s = c :: t → c ≠ ' ' ∧ operator? c = none

theorem StopsAt.nil : StopsAt operator? [] := by
  intro c t h
  cases h

theorem StopsAt.skipSpaces_eq {s : Text} (h : StopsAt operator? s) : skipSpaces s = s := by
  cases s with
  | nil => rfl
  | cons c t => exact skipSpaces_cons (h c t rfl).1 t

/-- A chain stops where no operator of its level stands. -/
theorem chainFrom_stopsAt (hop : Shortens operand) {limit : Nat} {left e : Expression}
    {s rest : Text} (hs : s.length < limit)
    (h : chainFrom operator? operand limit left s = .ok (e, rest)) : StopsAt operator? rest := by
  induction limit generalizing left s with
  | zero => omega
  | succ limit ih =>
    have hskip := skipSpaces_length_le s
    simp only [chainFrom] at h
    split at h
    · cases h
      exact StopsAt.nil
    · rename_i c t hst
      rw [hst, List.length_cons] at hskip
      split at h
      · rename_i hc
        cases h
        intro c' t' heq
        cases heq
        exact ⟨ne_space_of_skipSpaces hst, hc⟩
      · obtain ⟨⟨right, rest'⟩, hread, hchain⟩ := bind_eq_ok_iff.mp h
        have hlt := hop _ _ _ hread
        exact ih (show rest'.length < limit by omega) hchain

/-- A chain also stops where its operands stop. -/
theorem chainFrom_stopsAt_operand {inner? : Char → Option Operator}
    (hoperand : ∀ s e rest, operand s = .ok (e, rest) → StopsAt inner? rest)
    {limit : Nat} {left e : Expression} {s rest : Text} (hs : StopsAt inner? s)
    (h : chainFrom operator? operand limit left s = .ok (e, rest)) : StopsAt inner? rest := by
  induction limit generalizing left s with
  | zero =>
    cases h
    exact hs
  | succ limit ih =>
    simp only [chainFrom, hs.skipSpaces_eq] at h
    split at h
    · cases h
      exact StopsAt.nil
    · split at h
      · cases h
        exact hs
      · obtain ⟨⟨right, rest'⟩, hread, hchain⟩ := bind_eq_ok_iff.mp h
        exact ih (hoperand _ _ _ hread) hchain

theorem readTerm_stopsAt {factor : Text → Reading} (hop : Shortens factor) {s rest : Text}
    {e : Expression} (h : readTerm g factor s = .ok (e, rest)) :
    StopsAt (Operator.ofFactorSign? g) rest := by
  obtain ⟨⟨left, rest'⟩, _, hchain⟩ := bind_eq_ok_iff.mp h
  exact chainFrom_stopsAt hop (Nat.lt_succ_self rest'.length) hchain

theorem readSum_stopsAt {factor : Text → Reading} (hop : Shortens factor) {s rest : Text}
    {e : Expression} (h : readSum g factor s = .ok (e, rest)) :
    StopsAt Operator.ofTermSign? rest ∧ StopsAt (Operator.ofFactorSign? g) rest := by
  obtain ⟨⟨left, rest'⟩, hread, hchain⟩ := bind_eq_ok_iff.mp h
  exact ⟨chainFrom_stopsAt (chain_shortens hop) (Nat.lt_succ_self rest'.length) hchain,
    chainFrom_stopsAt_operand (fun _ _ _ => readTerm_stopsAt hop) (readTerm_stopsAt hop hread)
      hchain⟩

/-! ## Explanations of the readers -/

/-- Spaces may be skipped after an explained reading. -/
theorem Explains.skipSpaces {D : Bool → Text → Expression → Prop} {w s : Text} {e : Expression}
    (h : Explains g D w e s) : Explains g D w e (skipSpaces s) := by
  obtain ⟨m, hm⟩ := skipSpaces_split s
  cases h with
  | closed u n hw h =>
    refine .closed u (n + m) ?_ h
    rw [spaces_add, List.append_assoc, List.append_assoc, ← hm, ← List.append_assoc, ← hw]
  | ended u n hw hs h =>
    subst hs
    exact .ended u n hw rfl h
  | stuck h =>
    obtain ⟨c, t, rfl, hc, _⟩ := id h
    rw [skipSpaces_cons hc]
    exact .stuck h

/-- How a chain joins derived operands: its operators are no parts of numbers, and none stands where
nothing can go on. -/
structure Joins (g : Grammar) (operator? : Char → Option Operator)
    (Dop D : Bool → Text → Expression → Prop) : Prop where
  join : ∀ {last s t l r c op} (n : Nat), operator? c = some op → D false s l → Dop last t r →
    D last (s ++ spaces n ++ c :: t) (.binary op l r)
  notNumeric : ∀ {c op}, operator? c = some op → isNumeric c = false
  stuck : ∀ {c t}, Stuck g (c :: t) → operator? c = none

namespace Joins

variable {D Dop : Bool → Text → Expression → Prop} {w s t rest : Text} {left right e : Expression}
  {c : Char} {op : Operator}

/-- An operator follows only what is derived with all brackets closed. -/
theorem exists_closed (h : Joins g operator? Dop D) (hleft : Explains g D w left (c :: t))
    (hc : operator? c = some op) : ∃ u n, w = u ++ spaces n ++ c :: t ∧ D false u left := by
  cases hleft with
  | closed u n hw hD => exact ⟨u, n, hw, hD⟩
  | ended _ _ _ hrest => cases hrest
  | stuck hs =>
    rw [h.stuck hs] at hc
    cases hc

theorem explains (h : Joins g operator? Dop D) (hleft : Explains g D w left (c :: t))
    (hc : operator? c = some op) (hright : Explains g Dop t right rest) :
    Explains g D w (.binary op left right) rest := by
  obtain ⟨u, n, rfl, hD⟩ := h.exists_closed hleft hc
  rw [show c :: t = [c] ++ t from rfl, ← List.append_assoc]
  refine hright.prepend (f := .binary op left) fun last v hv => ?_
  simpa using h.join n hc hD hv

/-- A chain of explained operands that goes on from an explained reading is explained. -/
theorem chainFrom_explains (h : Joins g operator? Dop D)
    (hoperand : ∀ s e rest, operand s = .ok (e, rest) → Explains g Dop s e rest)
    {limit : Nat} (hleft : Explains g D w left s)
    (hread : chainFrom operator? operand limit left s = .ok (e, rest)) : Explains g D w e rest := by
  induction limit generalizing left s with
  | zero =>
    cases hread
    exact hleft
  | succ limit ih =>
    have hskip := hleft.skipSpaces
    simp only [chainFrom] at hread
    split at hread
    · rename_i hs
      cases hread
      rwa [hs] at hskip
    · rename_i c t hs
      rw [hs] at hskip
      split at hread
      · cases hread
        exact hskip
      · rename_i op hc
        obtain ⟨⟨right, rest'⟩, hright, hchain⟩ := bind_eq_ok_iff.mp hread
        exact ih (h.explains hskip hc (hoperand _ _ _ hright)) hchain

end Joins

/-- The derivations on a level with fewer than `depth` signs and brackets around each number. -/
def DerivesWithin (g : Grammar) (depth : Nat) (level : Level) (last : Bool) (s : Text)
    (e : Expression) : Prop :=
  Derives g last level s e ∧ e.nesting < depth

theorem joins_factors (g : Grammar) (depth : Nat) : Joins g (Operator.ofFactorSign? g)
    (DerivesWithin g depth .factor) (DerivesWithin g depth .term) where
  join n hc hl hr := by
    obtain ⟨hop, rfl⟩ := Operator.ofFactorSign?_eq_some_iff.mp hc
    exact ⟨.product n hop hl.1 hr.1, Nat.max_lt.mpr ⟨hl.2, hr.2⟩⟩
  notNumeric hc := by
    obtain ⟨-, rfl⟩ := Operator.ofFactorSign?_eq_some_iff.mp hc
    exact Operator.sign_not_isNumeric _
  stuck := by
    rintro c t ⟨_, _, heq, _, _, _, hnone⟩
    cases heq
    exact hnone

theorem joins_terms (g : Grammar) (depth : Nat) : Joins g Operator.ofTermSign?
    (DerivesWithin g depth .term) (DerivesWithin g depth .sum) where
  join n hc hl hr := by
    obtain ⟨hop, rfl⟩ := Operator.ofTermSign?_eq_some_iff.mp hc
    exact ⟨.addition n hop hl.1 hr.1, Nat.max_lt.mpr ⟨hl.2, hr.2⟩⟩
  notNumeric hc := by
    obtain ⟨-, rfl⟩ := Operator.ofTermSign?_eq_some_iff.mp hc
    exact Operator.sign_not_isNumeric _
  stuck := by
    rintro c t ⟨_, _, heq, _, _, hnone, _⟩
    cases heq
    exact hnone

/-- A factor alone is a term. -/
theorem Explains.ofFactor {depth : Nat} {s rest : Text} {e : Expression}
    (h : Explains g (DerivesWithin g depth .factor) s e rest) :
    Explains g (DerivesWithin g depth .term) s e rest :=
  h.prepend (p := []) (f := id) fun _ _ hD => ⟨.ofFactor hD.1, hD.2⟩

/-- A term alone is a sum. -/
theorem Explains.ofTerm {depth : Nat} {s rest : Text} {e : Expression}
    (h : Explains g (DerivesWithin g depth .term) s e rest) :
    Explains g (DerivesWithin g depth .sum) s e rest :=
  h.prepend (p := []) (f := id) fun _ _ hD => ⟨.ofTerm hD.1, hD.2⟩

theorem readTerm_explains {depth : Nat} {factor : Text → Reading}
    (hfactor : ∀ s e rest, factor s = .ok (e, rest) →
      Explains g (DerivesWithin g depth .factor) s e rest)
    {s rest : Text} {e : Expression} (h : readTerm g factor s = .ok (e, rest)) :
    Explains g (DerivesWithin g depth .term) s e rest := by
  obtain ⟨⟨left, rest'⟩, hread, hchain⟩ := bind_eq_ok_iff.mp h
  exact (joins_factors g depth).chainFrom_explains hfactor (hfactor _ _ _ hread).ofFactor hchain

theorem readSum_explains {depth : Nat} {factor : Text → Reading}
    (hfactor : ∀ s e rest, factor s = .ok (e, rest) →
      Explains g (DerivesWithin g depth .factor) s e rest)
    {s rest : Text} {e : Expression} (h : readSum g factor s = .ok (e, rest)) :
    Explains g (DerivesWithin g depth .sum) s e rest := by
  obtain ⟨⟨left, rest'⟩, hread, hchain⟩ := bind_eq_ok_iff.mp h
  exact (joins_terms g depth).chainFrom_explains (fun _ _ _ => readTerm_explains hfactor)
    (readTerm_explains hfactor hread).ofTerm hchain

/-- A bracket is closed, or left open at the end of the text, or nothing can go on after it. -/
theorem group_explains {depth n : Nat} {t r : Text} {e : Expression}
    (hinner : Explains g (DerivesWithin g depth .sum) t e r)
    (hstops : StopsAt Operator.ofTermSign? r ∧ StopsAt (Operator.ofFactorSign? g) r) :
    Explains g (DerivesWithin g (depth + 1) .factor) (spaces n ++ '(' :: t) (.group e)
      (skipClosing r) := by
  have hstuck (c : Char) (r' : Text) (hr : r = c :: r') (hc : c ≠ ')') :
      Stuck g (skipClosing r) := by
    have hskip : skipClosing r = c :: r' := by
      rw [skipClosing, hstops.1.skipSpaces_eq, hr]
      split
      · rename_i rest heq
        cases heq
        exact absurd rfl hc
      · rfl
    exact ⟨c, r', hskip, (hstops.1 c r' hr).1, hc, (hstops.1 c r' hr).2, (hstops.2 c r' hr).2⟩
  cases hinner with
  | closed u m ht hD =>
    obtain ⟨hD, hnest⟩ := hD
    cases hr : r with
    | nil =>
      refine .ended (spaces n ++ '(' :: u) m (by simp [ht, hr]) rfl ?_
      exact ⟨.unclosed n hD.atEnd, Nat.succ_lt_succ hnest⟩
    | cons c r' =>
      by_cases hc : c = ')'
      · subst hc
        refine .closed (spaces n ++ '(' :: u ++ spaces m ++ [')']) 0 ?_
          ⟨.group n m hD, Nat.succ_lt_succ hnest⟩
        simp [ht, hr, skipClosing, skipSpaces_cons, spaces]
      · exact .stuck (hr ▸ hstuck c r' hr hc)
  | ended u m ht hr hD =>
    subst hr
    exact .ended (spaces n ++ '(' :: u) m (by simp [ht]) rfl
      ⟨.unclosed n hD.1, Nat.succ_lt_succ hD.2⟩
  | stuck hs =>
    obtain ⟨c, r', hr, _, hc, _⟩ := hs
    exact .stuck (hstuck c r' hr hc)

/-- By induction on the bound: a factor that is read is explained. -/
theorem readFactor_explains (depth : Nat) (s : Text) (e : Expression) (rest : Text)
    (h : readFactor g depth s = .ok (e, rest)) :
    Explains g (DerivesWithin g depth .factor) s e rest := by
  induction depth generalizing s e rest with
  | zero => cases h
  | succ depth ih =>
    obtain ⟨n, hn⟩ := skipSpaces_split s
    have hread := readFactor_eq_ok h
    rw [hn]
    generalize skipSpaces s = t at hread
    cases hread with
    | plus hread =>
      rename_i t e
      have hinner : Explains g (DerivesWithin g (depth + 1) .factor)
          (spaces n ++ ['+'] ++ t) (.plus e) rest :=
        (ih _ _ _ hread).prepend fun last u hD => by
          simpa using ⟨.plus n hD.1, Nat.succ_lt_succ hD.2⟩
      simpa using hinner
    | minus hread =>
      rename_i t e
      have hinner : Explains g (DerivesWithin g (depth + 1) .factor)
          (spaces n ++ ['-'] ++ t) (.minus e) rest :=
        (ih _ _ _ hread).prepend fun last u hD => by
          simpa using ⟨.minus n hD.1, Nat.succ_lt_succ hD.2⟩
      simpa using hinner
    | group hread =>
      exact group_explains (readSum_explains ih hread)
        (readSum_stopsAt (readFactor_shortens g depth) hread)
    | number hu =>
      exact .closed _ 0 (by simp [spaces]) ⟨.number n hu, Nat.succ_pos _⟩
    | undefined hg =>
      exact .closed (spaces n ++ ['N', 'a', 'N']) 0 (by simp [spaces])
        ⟨.undefined n hg, Nat.succ_pos _⟩
    | infinity hg =>
      exact .closed (spaces n ++ ['i', 'n', 'f']) 0 (by simp [spaces])
        ⟨.infinity n hg, Nat.succ_pos _⟩

/-- A text that is read as a whole is derived, with at most 255 signs and brackets around each of
its numbers. -/
theorem accepts_of_parse {s : Text} {e : Expression} (h : parse g s = .ok e) :
    Accepts g s e ∧ e.nesting < maxNesting := by
  unfold parse at h
  cases hread : readSum g (readFactor g maxNesting) s with
  | error stop => simp [hread, Bind.bind, Except.bind, Except.mapError] at h
  | ok reading =>
    obtain ⟨e', rest⟩ := reading
    cases hrest : rest with
    | cons c t => simp [hread, hrest, Bind.bind, Except.bind, Except.mapError, throw, throwThe,
        MonadExceptOf.throw] at h
    | nil =>
      have he : e' = e := by
        simpa [hread, hrest, Bind.bind, Except.bind, Except.mapError, Pure.pure, Except.pure]
          using h
      subst he
      cases readSum_explains (readFactor_explains maxNesting) hread with
      | closed u n hw hD =>
        exact ⟨⟨u, n, by simpa [hrest] using hw, hD.1.atEnd⟩, hD.2⟩
      | ended u n hw _ hD => exact ⟨⟨u, n, hw, hD.1⟩, hD.2⟩
      | stuck hs =>
        obtain ⟨c, t, heq, _⟩ := hs
        simp [hrest] at heq

end Calculator.Expression
