import Calculator.Proofs.Expression.FaultPlace

/-!
# Spaces between tokens

A space may be put into a text wherever it cuts no number and no word in two. The readers then take
the same steps as before. What they leave has the space in it while the space is still ahead, and is
the same text once the space is behind. So the tree is the same, or the fault is, up to its place.
Spaces are skipped before every token: a fault at the space is met behind it and moves on, all but
the one of too many signs and brackets, which is met before the spaces are skipped.
-/

namespace Calculator.Expression

variable {g : Grammar} {operator? : Char → Option Operator} {operand : Text → Reading}
  {before after s s' t t' : Text} {c : Char}

/-- The words of the scientific grammar. -/
def words : List Text := ["NaN", "inf"]

/-- The place between two texts is not inside of a number or a word. -/
structure IsBetweenTokens (before after : Text) : Prop where
  /-- The characters on both sides are not both digits or points. -/
  number : EndsNumber before.reverse ∨ EndsNumber after
  /-- No word starts before the place and ends after it. -/
  word : ∀ start rest, start ++ rest ∈ words → start ≠ [] → rest ≠ [] →
    ¬(start <:+ before ∧ rest <+: after)

/-- What is left of a text, and what is left of the text with a space put in before `after`. -/
inductive Spaced (before after : Text) : Text → Text → Prop
  /-- The space is still ahead. -/
  | ahead {t : Text} (ht : t <:+ before) : Spaced before after (t ++ after) (t ++ ' ' :: after)
  /-- The space is behind. -/
  | behind {t : Text} (ht : t <:+ after) : Spaced before after t t

/-- Two readings of such texts find the same tree, or the same fault. Too many signs and brackets
are found before spaces are skipped, so never just behind the space, and all other faults are found
after that, so never just before it. -/
inductive SpacedReading (before after : Text) : Reading → Reading → Prop
  | read {e : Expression} {rest rest' : Text} (hrest : Spaced before after rest rest') :
      SpacedReading before after (.ok (e, rest)) (.ok (e, rest'))
  | fault {found : Found} {rest rest' : Text} (hrest : Spaced before after rest rest')
      (hplace : rest' ≠ if found = .nesting then after else ' ' :: after) :
      SpacedReading before after (.error ⟨rest, found⟩) (.error ⟨rest', found⟩)

/-- A reader that reads such texts alike, unless the space stands just behind them. -/
def ReadsSpaced (before after : Text) (operand : Text → Reading) : Prop :=
  ∀ s s', Spaced before after s s' → s' ≠ after →
    SpacedReading before after (operand s) (operand s')

/-! ## Texts with a space put in -/

/-- After their spaces both texts have ended, or go on with the same character. -/
inductive NextToken (before after s s' : Text) : Prop
  | ended (hs : skipSpaces s = []) (hs' : skipSpaces s' = [])
  | character {c : Char} {t t' : Text} (hs : skipSpaces s = c :: t) (hs' : skipSpaces s' = c :: t')
      (htoken : Spaced before after (c :: t) (c :: t')) (hstart : c :: t' ≠ ' ' :: after)
      (hrest : Spaced before after t t') (hne : t' ≠ after)

theorem nextToken_behind (before : Text) (ht : t <:+ after) : NextToken before after t t := by
  have hskip := (skipSpaces_suffix t).trans ht
  cases hs : skipSpaces t with
  | nil => exact .ended hs hs
  | cons c u =>
    rw [hs] at hskip
    have hlength := hskip.length_le
    refine .character hs hs (.behind hskip) ?_ (.behind ((List.suffix_cons c u).trans hskip)) ?_
    · exact fun heq => ne_space_of_skipSpaces hs (List.cons.inj heq).1
    · rintro rfl
      exact Nat.not_succ_le_self _ hlength

theorem Spaced.nextToken (h : Spaced before after s s') : NextToken before after s s' := by
  cases h with
  | behind ht => exact nextToken_behind before ht
  | @ahead t ht =>
    obtain ⟨n, hn⟩ := skipSpaces_split t
    have hskip := (skipSpaces_suffix t).trans ht
    cases hs : skipSpaces t with
    | nil =>
      -- only spaces are left before the space
      have hspaces (u : Text) : skipSpaces (t ++ u) = skipSpaces u := by
        rw [hn, hs, List.append_nil, skipSpaces_spaces_append]
      cases nextToken_behind before (List.suffix_refl after) with
      | ended hended => exact .ended ((hspaces _).trans hended) ((hspaces _).trans hended)
      | character hnext hnext' htoken hstart hrest hne =>
        exact .character ((hspaces _).trans hnext) ((hspaces _).trans hnext') htoken hstart hrest
          hne
    | cons c u =>
      have hspace := ne_space_of_skipSpaces hs
      have hnext (v : Text) : skipSpaces (t ++ v) = c :: (u ++ v) := by
        rw [hn, hs, List.append_assoc, skipSpaces_spaces_append, List.cons_append,
          skipSpaces_cons hspace]
      rw [hs] at hskip
      refine .character (hnext _) (hnext _) (.ahead hskip) ?_
        (.ahead ((List.suffix_cons c u).trans hskip)) fun heq => ?_
      · exact fun heq => hspace (List.cons.inj heq).1
      · have hlength := congrArg List.length heq
        simp only [List.length_append, List.length_cons] at hlength
        omega

theorem Spaced.skipClosing (h : Spaced before after s s') :
    Spaced before after (skipClosing s) (skipClosing s') := by
  unfold Expression.skipClosing
  cases h.nextToken with
  | ended hs hs' =>
    rw [hs, hs']
    exact .behind List.nil_suffix
  | @character c t t' hs hs' htoken _ hrest =>
    rw [hs, hs']
    by_cases hc : c = ')'
    · subst hc
      exact hrest
    · simpa [hc] using htoken

/-! ## Tokens -/

/-- No number goes on over the space, so the same run of digits and points is read. -/
theorem Spaced.takeWhile_numeric (hplace : IsBetweenTokens before after)
    (h : Spaced before after s s') (hstart : s' ≠ ' ' :: after) :
    s.takeWhile isNumeric = s'.takeWhile isNumeric ∧
      Spaced before after (s.dropWhile isNumeric) (s'.dropWhile isNumeric) := by
  cases h with
  | behind ht => exact ⟨rfl, .behind ((List.dropWhile_suffix _).trans ht)⟩
  | @ahead u hu =>
    have hsplit := List.takeWhile_append_dropWhile (p := isNumeric) (l := u)
    have hnumeric := List.all_eq_true.mp (List.all_takeWhile (p := isNumeric) (l := u))
    have hends := endsNumber_dropWhile u
    generalize u.takeWhile isNumeric = run at hsplit hnumeric
    generalize u.dropWhile isNumeric = left at hsplit hends
    subst hsplit
    have hread (rest : Text) (hrest : EndsNumber (left ++ rest)) :
        (run ++ left ++ rest).takeWhile isNumeric = run ∧
          (run ++ left ++ rest).dropWhile isNumeric = left ++ rest := by
      rw [List.append_assoc]
      exact hrest.takeWhile_append hnumeric
    have hafter : EndsNumber (left ++ after) := by
      cases left with
      | cons d left => exact .cons (hends d left rfl) _
      | nil =>
        -- the run ends at the place, so no number goes on after it
        refine hplace.number.resolve_left fun hbefore => ?_
        obtain ⟨p, rfl⟩ := hu
        rcases List.eq_nil_or_concat run with rfl | ⟨run, d, rfl⟩
        · exact hstart rfl
        · have hnot := hbefore d (run.reverse ++ p.reverse) (by simp)
          rw [hnumeric d (by simp)] at hnot
          cases hnot
    obtain ⟨hrun, hleft⟩ := hread after hafter
    obtain ⟨hrun', hleft'⟩ := hread (' ' :: after) (hends.append (.cons isNumeric_space after))
    rw [hrun, hleft, hrun', hleft']
    exact ⟨rfl, .ahead ((List.suffix_append run left).trans hu)⟩

theorem Spaced.readNumber (hplace : IsBetweenTokens before after) (h : Spaced before after s s')
    (hstart : s' ≠ ' ' :: after) :
    SpacedReading before after (readNumber s) (readNumber s') := by
  obtain ⟨hrun, hleft⟩ := h.takeWhile_numeric hplace hstart
  unfold Expression.readNumber
  rw [hrun]
  dsimp only
  cases Decimal.parse? (s'.takeWhile isNumeric) with
  | some d => exact .read hleft
  | none => exact .fault h hstart

/-- A word stands at the start of both texts or of neither. -/
theorem Spaced.startsWith_word (hplace : IsBetweenTokens before after)
    (h : Spaced before after s s') (hstart : s' ≠ ' ' :: after) (word : Text)
    (hword : word ∈ words) :
    (∀ rest, s = word ++ rest → ∃ rest', s' = word ++ rest' ∧ Spaced before after rest rest') ∧
      ∀ rest', s' = word ++ rest' → ∃ rest, s = word ++ rest := by
  cases h with
  | behind ht =>
    refine ⟨fun rest hs => ⟨rest, hs, .behind ?_⟩, fun rest' hs => ⟨rest', hs⟩⟩
    rw [hs] at ht
    exact (List.suffix_append word rest).trans ht
  | @ahead u hu =>
    have hne : u ≠ [] := by
      rintro rfl
      exact hstart rfl
    constructor
    · intro rest hs
      rcases List.append_eq_append_iff.mp hs with ⟨m, rfl, hafter⟩ | ⟨m, rfl, rfl⟩
      · -- a word that starts before the place ends there at the latest
        cases m with
        | nil =>
          obtain rfl : after = rest := hafter
          exact ⟨' ' :: after, by simp, .ahead (t := []) List.nil_suffix⟩
        | cons d m =>
          have hcut := hplace.word u (d :: m) hword hne (List.cons_ne_nil d m)
          exact absurd ⟨hu, _, hafter.symm⟩ hcut
      · exact ⟨m ++ ' ' :: after, by simp, .ahead ((List.suffix_append word m).trans hu)⟩
    · intro rest' hs
      rcases List.append_eq_append_iff.mp hs with ⟨m, rfl, hafter⟩ | ⟨m, rfl, rfl⟩
      · cases m with
        | nil => exact ⟨after, by simp⟩
        | cons d m =>
          cases hafter
          have hnone : ∀ word ∈ words, ' ' ∉ word := by decide
          exact absurd (by simp) (hnone _ hword)
      · exact ⟨m ++ after, by simp⟩

theorem Spaced.readWord (hplace : IsBetweenTokens before after)
    (h : Spaced before after (c :: t) (c :: t')) (hstart : c :: t' ≠ ' ' :: after) :
    SpacedReading before after (readWord g (c :: t)) (readWord g (c :: t')) := by
  obtain ⟨hundefined, hundefined'⟩ := h.startsWith_word hplace hstart "NaN" (by decide)
  obtain ⟨hinfinity, hinfinity'⟩ := h.startsWith_word hplace hstart "inf" (by decide)
  generalize hs : c :: t = s at *
  generalize hs' : c :: t' = s' at *
  unfold Expression.readWord
  split
  · rename_i rest
    obtain ⟨rest', rfl, hrest⟩ := hundefined rest rfl
    exact .read hrest
  · rename_i rest
    obtain ⟨rest', rfl, hrest⟩ := hinfinity rest rfl
    exact .read hrest
  · rename_i hnotUndefined hnotInfinity
    split
    · obtain ⟨rest, rfl⟩ := hundefined' _ rfl
      exact absurd rfl (hnotUndefined rest rfl)
    · obtain ⟨rest, rfl⟩ := hinfinity' _ rfl
      exact absurd rfl (hnotInfinity rest rfl)
    · subst hs hs'
      exact .fault h hstart

/-! ## Readers -/

/-- What goes on alike with what is left goes on alike. -/
theorem SpacedReading.bind {reading reading' : Reading} {next next' : Expression × Text → Reading}
    (h : SpacedReading before after reading reading')
    (hnext : ∀ e rest rest', Spaced before after rest rest' →
      SpacedReading before after (next (e, rest)) (next' (e, rest'))) :
    SpacedReading before after (reading >>= next) (reading' >>= next') := by
  cases h with
  | read hrest => exact hnext _ _ _ hrest
  | fault hrest hplace => exact .fault hrest hplace

/-- By induction on the length of what is left: a chain goes on with the same operator and operand
in both texts, or stops in both. -/
theorem ReadsSpaced.chainOn (hop : Shortens operand) (hoperand : ReadsSpaced before after operand)
    (left : Expression) (h : Spaced before after s s') :
    SpacedReading before after (chainOn operator? operand left s)
      (chainOn operator? operand left s') := by
  induction hlength : s.length using Nat.strongRecOn generalizing left s s' with
  | ind length ih =>
    cases h.nextToken with
    | ended hs hs' =>
      rw [chainOn_of_nil hs, chainOn_of_nil hs']
      exact .read (.behind List.nil_suffix)
    | @character c t t' hs hs' htoken _ hrest hne =>
      cases hc : operator? c with
      | none =>
        rw [chainOn_of_none hs hc, chainOn_of_none hs' hc]
        exact .read htoken
      | some op =>
        have hread := hoperand t t' hrest hne
        have hskip := skipSpaces_length_le s
        rw [hs, List.length_cons] at hskip
        generalize hright : operand t = reading at hread
        generalize hright' : operand t' = reading' at hread
        cases hread with
        | fault hrest hplace =>
          rw [chainOn_of_error hs hc hright, chainOn_of_error hs' hc hright']
          exact .fault hrest hplace
        | read hrest =>
          rw [chainOn_of_some hop left hs hc hright, chainOn_of_some hop left hs' hc hright']
          have hlt := hop _ _ _ hright
          exact ih _ (by omega) _ hrest rfl

theorem ReadsSpaced.chain (hop : Shortens operand) (hoperand : ReadsSpaced before after operand) :
    ReadsSpaced before after (chain operator? operand) := by
  intro s s' h hne
  rw [chain_eq, chain_eq]
  exact (hoperand s s' h hne).bind fun left rest rest' hrest => hoperand.chainOn hop left hrest

theorem ReadsSpaced.readSum {depth : Nat} (h : ReadsSpaced before after (readFactor g depth)) :
    ReadsSpaced before after (readSum g (readFactor g depth)) :=
  (h.chain (readFactor_shortens g depth)).chain (readTerm_shortens g depth)

/-- By induction on the bound on signs and brackets. -/
theorem readsSpaced_readFactor (hplace : IsBetweenTokens before after) (g : Grammar) (depth : Nat) :
    ReadsSpaced before after (readFactor g depth) := by
  induction depth with
  | zero => exact fun s s' h hne => .fault h hne
  | succ depth ih =>
    intro s s' h _
    unfold readFactor
    cases h.nextToken with
    | ended hs hs' =>
      rw [hs, hs']
      exact .fault (.behind List.nil_suffix) (List.cons_ne_nil _ _).symm
    | @character c t t' hs hs' htoken hstart hrest hne =>
      have hsign (f : Expression → Expression) : SpacedReading before after
          (readFactor g depth t >>= fun read => .ok (f read.1, read.2))
          (readFactor g depth t' >>= fun read => .ok (f read.1, read.2)) :=
        (ih t t' hrest hne).bind fun _ _ _ hleft => .read hleft
      rw [hs, hs']
      dsimp only
      split
      · exact hsign .plus
      split
      · exact hsign .minus
      split
      · exact (ih.readSum t t' hrest hne).bind fun _ _ _ hleft => .read hleft.skipClosing
      split
      · exact htoken.readNumber hplace hstart
      · exact htoken.readWord hplace hstart

/-! ## Faults of texts -/

/-- The place of a fault once a space has been put into its text. -/
def placeAfter (space place : Nat) (found : Found) : Nat :=
  if space < place ∨ space = place ∧ found ≠ .nesting then place + 1 else place

/-- The places of a fault in both texts, counted from their starts. -/
theorem Spaced.position (h : Spaced before after s s') (found : Found)
    (hplace : s' ≠ if found = .nesting then after else ' ' :: after) :
    (before ++ ' ' :: after).length - s'.length =
      placeAfter before.length ((before ++ after).length - s.length) found := by
  cases h with
  | @ahead t ht =>
    have hlength := ht.length_le
    have hposition : (before ++ after).length - (t ++ after).length = before.length - t.length ∧
        (before ++ ' ' :: after).length - (t ++ ' ' :: after).length =
          before.length - t.length := by
      simp only [List.length_append, List.length_cons]
      omega
    have hstays : ¬(before.length < before.length - t.length ∨
        before.length = before.length - t.length ∧ found ≠ .nesting) := by
      rintro (hlt | ⟨heq, hfound⟩)
      · omega
      · obtain rfl : t = [] := List.length_eq_zero_iff.mp (by omega)
        simp [hfound] at hplace
    rw [hposition.1, hposition.2, placeAfter, if_neg hstays]
  | behind ht =>
    have hlength := ht.length_le
    have hposition : (before ++ ' ' :: after).length - s.length =
        (before ++ after).length - s.length + 1 := by
      simp only [List.length_append, List.length_cons]
      omega
    have hmoves : before.length < (before ++ after).length - s.length ∨
        before.length = (before ++ after).length - s.length ∧ found ≠ .nesting := by
      rw [List.length_append]
      rcases Nat.lt_or_eq_of_le hlength with hlt | heq
      · exact .inl (by omega)
      · obtain rfl := ht.eq_of_length heq
        refine .inr ⟨by omega, fun hfound => ?_⟩
        simp [hfound] at hplace
    rw [hposition, placeAfter, if_pos hmoves]

/-- Both texts are read as the same tree, or with the same fault. -/
theorem parse_insert_space (h : IsBetweenTokens before after) :
    parse g (before ++ ' ' :: after) =
      (parse g (before ++ after)).mapError fun u =>
        ⟨placeAfter before.length u.position u.found, u.found⟩ := by
  have herror {found : Found} {place place' : Nat} (hposition : place = place') :
      (Except.error ⟨place, found⟩ : Except Unexpected Expression) = .error ⟨place', found⟩ := by
    rw [hposition]
  have hne : before ++ ' ' :: after ≠ after := by
    intro heq
    have hlength := congrArg List.length heq
    simp only [List.length_append, List.length_cons] at hlength
    omega
  have hread := (readsSpaced_readFactor h g maxNesting).readSum _ _ (.ahead List.suffix_rfl) hne
  unfold parse
  generalize hreading : readSum g (readFactor g maxNesting) (before ++ after) = reading at hread
  generalize hreading' : readSum g (readFactor g maxNesting) (before ++ ' ' :: after) = reading'
    at hread
  cases hread with
  | fault hrest hplace => exact herror (hrest.position _ hplace)
  | read hrest =>
    -- all spaces have been skipped where a sum ends
    have hskip := (readSum_stopsAt (readFactor_shortens g maxNesting) hreading).1.skipSpaces_eq
    have hskip' := (readSum_stopsAt (readFactor_shortens g maxNesting) hreading').1.skipSpaces_eq
    cases hrest.nextToken with
    | ended hs hs' =>
      rw [← hskip, ← hskip', hs, hs']
      rfl
    | @character c t t' hs hs' htoken hstart =>
      rw [← hskip, ← hskip', hs, hs']
      exact herror (htoken.position (.character c) hstart)

/-- **A space between tokens changes nothing but the places of faults.** Wherever a space is put
into a text and cuts no number and no word in two, the text keeps its value, or its fault. A fault
behind the space moves on by one place, and so does a fault at the space unless it is the one of too
many signs and brackets. -/
theorem evaluate_insert_space (h : IsBetweenTokens before after) :
    (∀ x, evaluate g (before ++ ' ' :: after) = .ok x ↔ evaluate g (before ++ after) = .ok x) ∧
      ∀ place found, evaluate g (before ++ after) = .error ⟨place, found⟩ →
        evaluate g (before ++ ' ' :: after) = .error ⟨
          if before.length < place ∨ before.length = place ∧ found ≠ .nesting then place + 1
            else place, found⟩ := by
  rw [evaluate, evaluate, parse_insert_space h]
  cases parse g (before ++ after) with
  | ok e =>
    refine ⟨fun x => Iff.rfl, ?_⟩
    rintro place found ⟨⟩
  | error u =>
    constructor
    · intro x
      constructor <;> rintro ⟨⟩
    · rintro place found ⟨⟩
      rfl

/-- No word goes on with a character that is in none. -/
theorem not_inside_word (hc : ∀ word ∈ words, c ∉ word) (start rest : Text)
    (hword : start ++ rest ∈ words) (hrest : rest ≠ []) : ¬rest <+: c :: after := by
  intro hprefix
  cases rest with
  | nil => exact hrest rfl
  | cons d rest =>
    obtain ⟨rfl, -⟩ := List.cons_prefix_cons.mp hprefix
    exact hc _ hword (by simp)

/-- A space before the operand of `6*-(2` changes nothing, and a space before the character at which
`6*(2x)` cannot go on moves the fault. -/
theorem evaluate_insert_space_product :
    (IsBetweenTokens "6*-(".toList "2".toList ∧
      evaluate .scientific "6*-( 2".toList = .ok (-12)) ∧
    IsBetweenTokens "6*(2".toList "x)".toList ∧
      evaluate .scientific "6*(2 x)".toList = .error ⟨5, .character 'x'⟩ := by
  have hvalues : evaluate .scientific "6*-(2".toList = .ok (-12) ∧
      evaluate .scientific "6*(2x)".toList = .error ⟨4, .character 'x'⟩ := by decide +kernel
  have hoperand : IsBetweenTokens "6*-(".toList "2".toList :=
    ⟨.inl (.cons (by decide) _), fun start rest hword _ hrest hplace =>
      not_inside_word (by decide) start rest hword hrest hplace.2⟩
  have hfault : IsBetweenTokens "6*(2".toList "x)".toList :=
    ⟨.inr (.cons (by decide) _), fun start rest hword _ hrest hplace =>
      not_inside_word (by decide) start rest hword hrest hplace.2⟩
  exact ⟨⟨hoperand, ((evaluate_insert_space hoperand).1 _).mpr hvalues.1⟩, hfault,
    (evaluate_insert_space hfault).2 _ _ hvalues.2⟩

end Calculator.Expression
