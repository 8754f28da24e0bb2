import Calculator.Json.Parser
import Calculator.Proofs.Text

/-!
# Numbers in JSON

A number is read back as it was written, digit by digit, provided that it has the form of a JSON
number and that nothing follows that would go on with it.
-/

namespace Calculator

/-- The digits of a number have the form that the format asks for. -/
structure Numeral.IsWellFormed (n : Numeral) : Prop where
  whole_ne_nil : n.whole ≠ []
  whole_digits : ∀ c ∈ n.whole, c.isDigit = true
  leading_zero : n.whole.head? = some '0' → n.whole = ['0']
  fraction_digits : ∀ c ∈ n.fraction, c.isDigit = true
  exponent_digits : ∀ c ∈ n.exponent, c.isDigit = true
  lowers_exponent : n.exponent = [] → n.lowers = false

namespace Json

open Text (EndsDigits endsDigits_cons)

/-- A text does not go on with a number that stands before it. -/
def EndsNumber (s : Text) : Prop :=
  ∀ c ∈ s.head?, c.isDigit = false ∧ c ≠ '.' ∧ c ≠ 'e' ∧ c ≠ 'E'

theorem endsNumber_nil : EndsNumber [] := nofun

theorem endsNumber_cons {c : Char} (hdigit : c.isDigit = false)
    (hmark : c ≠ '.' ∧ c ≠ 'e' ∧ c ≠ 'E') (s : Text) : EndsNumber (c :: s) := by
  rintro d ⟨⟩
  exact ⟨hdigit, hmark⟩

theorem EndsNumber.endsDigits {s : Text} (h : EndsNumber s) : EndsDigits s :=
  fun c hc => (h c hc).1

theorem readDigits_append {digits rest : Text} (hne : digits ≠ [])
    (hdigits : ∀ c ∈ digits, c.isDigit = true) (hrest : EndsDigits rest) :
    readDigits (digits ++ rest) = some (digits, rest) := by
  rw [readDigits, hrest.takeWhile_append hdigits, hrest.dropWhile_append hdigits]
  exact if_neg (by simpa using hne)

theorem readWhole_append {digits rest : Text} (hne : digits ≠ [])
    (hdigits : ∀ c ∈ digits, c.isDigit = true) (hzero : digits.head? = some '0' → digits = ['0'])
    (hrest : EndsDigits rest) : readWhole (digits ++ rest) = some (digits, rest) := by
  by_cases hhead : digits.head? = some '0'
  · rw [hzero hhead]
    cases rest with
    | nil => rfl
    | cons c rest =>
      have hc : c.isDigit = false := hrest c rfl
      rw [List.singleton_append, readWhole, hc]
      rfl
  · rw [readWhole.eq_2, readDigits_append hne hdigits hrest]
    intro c more heq
    apply hhead
    cases digits with
    | nil => exact absurd rfl hne
    | cons d digits =>
      rw [List.cons_append, List.cons.injEq] at heq
      rw [List.head?_cons, heq.1]

theorem readFraction_append {digits rest : Text} (hdigits : ∀ c ∈ digits, c.isDigit = true)
    (hrest : EndsDigits rest) (hpoint : ∀ c ∈ rest.head?, c ≠ '.') :
    readFraction ((if digits.isEmpty then [] else '.' :: digits) ++ rest) =
      some (digits, rest) := by
  split
  · rename_i hempty
    rw [List.isEmpty_iff] at hempty
    subst hempty
    rw [List.nil_append, readFraction.eq_2]
    rintro more rfl
    exact hpoint '.' rfl rfl
  · rename_i hne
    rw [List.cons_append, readFraction]
    exact readDigits_append (by simpa using hne) hdigits hrest

/-- The text of an exponent with its letter. -/
def exponentText (lowers : Bool) (digits : Text) : Text :=
  if digits.isEmpty then [] else 'e' :: if lowers then '-' :: digits else digits

theorem readExponent_append {lowers : Bool} {digits rest : Text}
    (hdigits : ∀ c ∈ digits, c.isDigit = true) (hlowers : digits = [] → lowers = false)
    (hrest : EndsNumber rest) :
    readExponent (exponentText lowers digits ++ rest) = some ((lowers, digits), rest) := by
  unfold exponentText
  split
  · rename_i hempty
    rw [List.isEmpty_iff] at hempty
    subst hempty
    rw [List.nil_append, hlowers rfl]
    cases rest with
    | nil => rfl
    | cons c rest =>
      obtain ⟨-, -, hlower, hupper⟩ := hrest c rfl
      unfold readExponent
      exact if_neg (by simp [hlower, hupper])
  · rename_i hne
    have hread := readDigits_append (by simpa using hne) hdigits hrest.endsDigits
    cases lowers with
    | true =>
      rw [if_pos rfl, List.cons_append, List.cons_append, readExponent]
      simp [hread]
    | false =>
      -- the digits do not start with a sign, which would be taken for one of the exponent
      have hsign : ∀ c ∈ (digits ++ rest).head?, c ≠ '-' ∧ c ≠ '+' := by
        obtain ⟨d, digits, rfl⟩ := List.exists_cons_of_ne_nil (by simpa using hne)
        rintro c ⟨⟩
        constructor
        · rintro rfl
          exact absurd (hdigits '-' (by simp)) (by decide)
        · rintro rfl
          exact absurd (hdigits '+' (by simp)) (by decide)
      rw [if_neg (by decide), List.cons_append, readExponent, if_pos (by decide), hread,
        Option.map_some]
      · intro more heq
        rw [heq] at hsign
        exact (hsign '-' rfl).1 rfl
      · intro more heq
        rw [heq] at hsign
        exact (hsign '+' rfl).2 rfl

/-- The first character of a number is a digit or a minus sign. -/
theorem head?_text {n : Numeral} (h : n.IsWellFormed) :
    ∃ c, n.text.head? = some c ∧ (c = '-' ∨ c.isDigit = true) := by
  obtain ⟨d, digits, hwhole⟩ := List.exists_cons_of_ne_nil h.whole_ne_nil
  have hd : d.isDigit = true := h.whole_digits d (by simp [hwhole])
  rw [Numeral.text, hwhole]
  cases n.negative with
  | true => exact ⟨'-', rfl, .inl rfl⟩
  | false => exact ⟨d, rfl, .inr hd⟩

/-- Reads a number after its sign. -/
def readUnsigned (negative : Bool) (s : Text) : Option (Json × Text) := do
  let (whole, s) ← readWhole s
  let (fraction, s) ← readFraction s
  let ((lowers, exponent), s) ← readExponent s
  return (.number ⟨negative, whole, fraction, lowers, exponent⟩, s)

theorem readNumeral_minus (s : Text) : readNumeral ('-' :: s) = readUnsigned true s := rfl

theorem readNumeral_of_head?_ne {s : Text} (h : s.head? ≠ some '-') :
    readNumeral s = readUnsigned false s := by
  unfold readNumeral
  split
  rename_i x negative rest heq
  split at heq
  · exact absurd rfl h
  · cases heq
    rfl

/-- The text of a number from its point on. -/
def fractionalText (n : Numeral) : Text :=
  (if n.fraction.isEmpty then [] else '.' :: n.fraction) ++ exponentText n.lowers n.exponent

theorem text_eq (n : Numeral) :
    n.text = (if n.negative then ['-'] else []) ++ (n.whole ++ fractionalText n) := by
  cases hnegative : n.negative <;>
    simp [Numeral.text, fractionalText, exponentText, hnegative]

theorem readUnsigned_text {n : Numeral} (h : n.IsWellFormed) {rest : Text}
    (hrest : EndsNumber rest) :
    readUnsigned n.negative (n.whole ++ (fractionalText n ++ rest)) = some (.number n, rest) := by
  have hexponent : EndsDigits (exponentText n.lowers n.exponent ++ rest) ∧
      ∀ c ∈ (exponentText n.lowers n.exponent ++ rest).head?, c ≠ '.' := by
    unfold exponentText
    split
    · exact ⟨hrest.endsDigits, fun c hc => (hrest c hc).2.1⟩
    · constructor
      · rintro c ⟨⟩
        rfl
      · rintro c ⟨⟩
        decide
  have hfraction : EndsDigits ((if n.fraction.isEmpty then [] else '.' :: n.fraction) ++
      (exponentText n.lowers n.exponent ++ rest)) := by
    split
    · exact hexponent.1
    · rintro c ⟨⟩
      rfl
  simp only [fractionalText, List.append_assoc, readUnsigned,
    readWhole_append h.whole_ne_nil h.whole_digits h.leading_zero hfraction,
    readFraction_append h.fraction_digits hexponent.1 hexponent.2,
    readExponent_append h.exponent_digits h.lowers_exponent hrest, Option.bind_eq_bind,
    Option.bind_some, Option.pure_def]

/-- A number is read from its text. -/
theorem readNumeral_text {n : Numeral} (h : n.IsWellFormed) {rest : Text}
    (hrest : EndsNumber rest) : readNumeral (n.text ++ rest) = some (.number n, rest) := by
  have hread := readUnsigned_text h hrest
  rw [text_eq, List.append_assoc, List.append_assoc]
  cases hnegative : n.negative with
  | true =>
    rw [hnegative] at hread
    rwa [if_pos rfl, List.singleton_append, readNumeral_minus]
  | false =>
    rw [hnegative] at hread
    obtain ⟨d, digits, hwhole⟩ := List.exists_cons_of_ne_nil h.whole_ne_nil
    have hd : d ≠ '-' := by
      rintro rfl
      exact absurd (h.whole_digits '-' (by simp [hwhole])) (by decide)
    rwa [if_neg (by decide), List.nil_append, readNumeral_of_head?_ne (by simp [hwhole, hd])]

end Json

end Calculator
