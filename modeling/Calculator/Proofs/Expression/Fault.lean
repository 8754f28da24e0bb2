import Calculator.Proofs.Expression.Reading

/-!
# The faults that readers meet

A reader leaves an end of its text, and so is every place where it meets a fault. What it reports
there is what stands there: the end of the text, a character, or the digits and points up to the
next other character when they are no number.
-/

namespace Calculator.Expression

variable {g : Grammar} {operator? : Char → Option Operator} {operand : Text → Reading} {s : Text}

/-- A fault reports what stands at its place. -/
inductive Stop.Reports : Stop → Prop
  /-- The text has ended. -/
  | ending : Reports ⟨[], .ending⟩
  /-- A character stands there. -/
  | character (c : Char) (rest : Text) : Reports ⟨c :: rest, .character c⟩
  /-- The longest run of digits and points there is no number. -/
  | numeral {rest : Text} (hne : rest.takeWhile isNumeric ≠ [])
      (hnot : ¬Decimal.IsNumeral (rest.takeWhile isNumeric)) :
      Reports ⟨rest, .numeral (rest.takeWhile isNumeric)⟩
  /-- One sign or bracket too many stands before the place. -/
  | nesting (rest : Text) : Reports ⟨rest, .nesting⟩

theorem Stop.reports_at (s : Text) : (Stop.at s).Reports := by
  cases s with
  | nil => exact .ending
  | cons c rest => exact .character c rest

/-- A reading stays within its text: it leaves an end of it, or reports what stands before one. -/
inductive Within (s : Text) : Reading → Prop
  | read {e : Expression} {rest : Text} (hrest : rest <:+ s) : Within s (.ok (e, rest))
  | fault {stop : Stop} (hrest : stop.rest <:+ s) (hreports : stop.Reports) :
      Within s (.error stop)

/-- A reader whose readings all stay within their texts. -/
def IsWithin (operand : Text → Reading) : Prop := ∀ s, Within s (operand s)

theorem Within.of_suffix {s t : Text} {reading : Reading} (h : Within t reading)
    (ht : t <:+ s) : Within s reading := by
  cases h with
  | read hrest => exact .read (hrest.trans ht)
  | fault hrest hreports => exact .fault (hrest.trans ht) hreports

/-- What goes on with the text that a reading leaves stays within the first text. -/
theorem Within.bind {reading : Reading} {next : Expression × Text → Reading}
    (h : Within s reading) (hnext : ∀ e rest, Within rest (next (e, rest))) :
    Within s (reading >>= next) := by
  cases h with
  | read hrest => exact (hnext _ _).of_suffix hrest
  | fault hrest hreports => exact .fault hrest hreports

/-- What is left after a reading is an end of its text. -/
theorem IsWithin.suffix {rest : Text} {e : Expression} (h : IsWithin operand)
    (hread : operand s = .ok (e, rest)) : rest <:+ s := by
  have hwithin := h s
  rw [hread] at hwithin
  cases hwithin with
  | read hrest => exact hrest

theorem skipSpaces_suffix (s : Text) : skipSpaces s <:+ s := List.dropWhile_suffix _

theorem skipClosing_suffix (s : Text) : skipClosing s <:+ s := by
  have hskip := skipSpaces_suffix s
  unfold skipClosing
  split
  · rename_i rest hs
    rw [hs] at hskip
    exact (List.suffix_cons ')' rest).trans hskip
  · exact hskip

/-! ## The readers -/

theorem within_readNumber {c : Char} (hc : isNumeric c = true) (s : Text) :
    Within (c :: s) (readNumber (c :: s)) := by
  have hne : (c :: s).takeWhile isNumeric ≠ [] := by simp [hc]
  unfold readNumber
  dsimp only
  split
  · exact .read (List.dropWhile_suffix _)
  · rename_i hparse
    refine .fault List.suffix_rfl (.numeral hne fun hnumeral => ?_)
    rw [Decimal.parse?_eq_some_iff.mpr ⟨hnumeral, rfl⟩] at hparse
    cases hparse

theorem readWord_isWithin (g : Grammar) : IsWithin (readWord g) := by
  intro s
  unfold readWord
  split
  · exact .read (List.suffix_append ['N', 'a', 'N'] _)
  · exact .read (List.suffix_append ['i', 'n', 'f'] _)
  · refine .fault ?_ (Stop.reports_at s)
    cases s <;> exact List.suffix_rfl

theorem chainFrom_isWithin (hoperand : IsWithin operand) (limit : Nat) (left : Expression) :
    IsWithin (chainFrom operator? operand limit left) := by
  induction limit generalizing left with
  | zero => exact fun s => .read List.suffix_rfl
  | succ limit ih =>
    intro s
    have hskip := skipSpaces_suffix s
    rw [chainFrom]
    split
    · exact .read List.nil_suffix
    · rename_i c rest hs
      rw [hs] at hskip
      split
      · exact .read hskip
      · exact ((hoperand rest).bind fun right rest => ih _ rest).of_suffix
          ((List.suffix_cons c rest).trans hskip)

theorem chain_isWithin (hoperand : IsWithin operand) : IsWithin (chain operator? operand) :=
  fun s => (hoperand s).bind fun left rest => chainFrom_isWithin hoperand _ left rest

/-- By induction on the bound on signs and brackets. -/
theorem readFactor_isWithin (g : Grammar) (depth : Nat) : IsWithin (readFactor g depth) := by
  induction depth with
  | zero => exact fun s => .fault List.suffix_rfl (.nesting s)
  | succ depth ih =>
    intro s
    have hskip := skipSpaces_suffix s
    unfold readFactor
    cases hs : skipSpaces s with
    | nil => exact .fault List.nil_suffix .ending
    | cons c rest =>
      rw [hs] at hskip
      have hrest := (List.suffix_cons c rest).trans hskip
      have hsign (f : Expression → Expression) :
          Within s (readFactor g depth rest >>= fun read => .ok (f read.1, read.2)) := by
        refine ((ih rest).bind ?_).of_suffix hrest
        exact fun e rest => .read List.suffix_rfl
      dsimp only
      split
      · exact hsign .plus
      split
      · exact hsign .minus
      split
      · have hsum : IsWithin (readSum g (readFactor g depth)) := chain_isWithin (chain_isWithin ih)
        refine ((hsum rest).bind ?_).of_suffix hrest
        exact fun e rest => .read (skipClosing_suffix rest)
      split
      · rename_i hc
        exact (within_readNumber hc rest).of_suffix hskip
      · exact (readWord_isWithin g _).of_suffix hskip

/-- A text that is not read has a fault at the start of one of its ends. -/
theorem parse_eq_error {u : Unexpected} (h : parse g s = .error u) :
    ∃ rest, rest <:+ s ∧ u.position = s.length - rest.length ∧ Stop.Reports ⟨rest, u.found⟩ := by
  have hsum : Within s (readSum g (readFactor g maxNesting) s) :=
    chain_isWithin (chain_isWithin (readFactor_isWithin g maxNesting)) s
  unfold parse at h
  generalize readSum g (readFactor g maxNesting) s = reading at h hsum
  cases hsum with
  | fault hrest hreports =>
    cases h
    exact ⟨_, hrest, rfl, hreports⟩
  | @read e rest hrest =>
    cases rest with
    | nil => cases h
    | cons c rest =>
      cases h
      exact ⟨c :: rest, hrest, rfl, .character c rest⟩

theorem evaluate_eq_error {u : Unexpected} (h : evaluate g s = .error u) :
    parse g s = .error u := by
  unfold evaluate at h
  cases hparse : parse g s with
  | ok e =>
    rw [hparse] at h
    cases h
  | error u' =>
    rw [hparse] at h
    exact congrArg Except.error (Except.error.inj h)

/-- No number of a text is malformed if it has no points. -/
theorem found_ne_numeral {u : Unexpected} (h : evaluate g s = .error u) (hs : '.' ∉ s)
    (run : Text) : u.found ≠ .numeral run := by
  intro hfound
  obtain ⟨rest, hrest, -, hreports⟩ := parse_eq_error (evaluate_eq_error h)
  rw [hfound] at hreports
  cases hreports with
  | numeral hne hnot =>
    refine hnot (.of_digits (fun c hc => ?_) hne)
    have hmem := hrest.subset ((List.takeWhile_prefix _).subset hc)
    have hpoint : c ≠ '.' := by
      rintro rfl
      exact hs hmem
    have hnumeric := List.all_eq_true.mp List.all_takeWhile c hc
    simpa [isNumeric, hpoint] using hnumeric

end Calculator.Expression
