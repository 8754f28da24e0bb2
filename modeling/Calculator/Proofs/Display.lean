import Calculator.Calculation
import Calculator.Proofs.Number.Displayed

/-!
# What a display tells

The texts for outcomes without a value cannot be mistaken for numbers: all three have the letter
`r`, which is neither a capital digit, a sign nor a point. So a display tells the outcome of its
expression, and a display that is none of these texts is a number in written form.
-/

namespace Calculator

namespace Radix

/-- The form of an integer in a base: a sign or none, and digits in written form. Zero has no
sign. -/
inductive IsInteger (r : Radix) : Text → Prop
  | mk (negative : Bool) {digits : Text} (hdigits : r.IsWritten digits)
    (hzero : negative = true → digits ≠ ['0']) :
    IsInteger r ((if negative then ['-'] else []) ++ digits)

theorem isInteger_render (r : Radix) (n : Int64) : r.IsInteger (r.render n) := by
  have hdigits := r.isWritten_digitsOf n.toInt.natAbs
  rw [render_eq]
  by_cases hneg : n < 0
  · rw [if_pos hneg]
    refine .mk true hdigits fun _ hzero => ?_
    have hvalue := r.positional_digitsOf n.toInt.natAbs
    have hnone : r.positional ['0'] = 0 := by cases r <;> decide
    rw [hzero, hnone] at hvalue
    rw [lt_zero_iff] at hneg
    omega
  · rw [if_neg hneg]
    exact .mk false hdigits nofun

theorem IsWritten.not_mem {r : Radix} {digits : Text} (h : r.IsWritten digits) {c : Char}
    (hc : c ∉ capitals) : c ∉ digits := fun hmem => hc (List.mem_of_mem_take (h.capital c hmem))

/-- An integer has no letters but the capitals that are digits. -/
theorem IsInteger.not_mem {r : Radix} {display : Text} (h : r.IsInteger display) {c : Char}
    (hsign : c ≠ '-') (hc : c ∉ capitals) : c ∉ display := by
  obtain ⟨negative, hdigits, -⟩ := h
  have hnone : c ∉ if negative then ['-'] else [] := by cases negative <;> simp [hsign]
  simp [hnone, hdigits.not_mem hc]

/-- The numeral of an integer is not empty. -/
theorem IsInteger.ne_nil {r : Radix} {display : Text} (h : r.IsInteger display) :
    display ≠ [] := by
  obtain ⟨negative, hdigits, -⟩ := h
  exact List.append_ne_nil_of_right_ne_nil _ hdigits.nonempty

end Radix

theorem Decimal.IsFraction.not_mem {fraction : Text} (h : IsFraction fraction) :
    'r' ∉ fraction := by
  cases h with
  | none => exact List.not_mem_nil
  | places hdigits hlast _ =>
    intro hr
    rcases List.mem_append.mp hr with hr | hr
    · rcases List.mem_cons.mp hr with hr | hr
      · exact absurd hr (by decide)
      · exact absurd (hdigits _ hr) (by decide)
    · rw [← List.mem_singleton.mp hr] at hlast
      exact absurd hlast (by decide)

theorem Display.IsNumber.not_mem {display : Text} (h : IsNumber display) :
    'r' ∉ display := by
  obtain ⟨negative, hwhole, hfraction, -⟩ := h
  have hsign : 'r' ∉ if negative then ['-'] else [] := by cases negative <;> decide
  simp [hsign, hwhole.not_mem (c := 'r') (by decide), hfraction.not_mem]

namespace Outcome

/-- An outcome that is a finite value. -/
def IsFinite (outcome : Outcome) : Prop :=
  ∃ x negative units, outcome = .value x ∧ Double.ofFloat x = .finite negative units

/-- A computation has no value but a finite one. -/
theorem isFinite_of_eq_value {ε : Type} {result : Except ε Float} {x : Float}
    (h : ofResult result = .value x) : (ofResult result).IsFinite := by
  cases result with
  | error e => cases h
  | ok y =>
    rw [ofResult, ofFloat] at h ⊢
    cases hy : Double.ofFloat y with
    | nan => simp [hy] at h
    | infinite negative => simp [hy] at h
    | finite negative units => exact ⟨y, negative, units, rfl, hy⟩

end Outcome

namespace Display

/-- What a display in decimal tells about the outcome. -/
structure Tells (display : Text) (outcome : Outcome) : Prop where
  /-- A number is displayed for a finite value alone. -/
  number : IsNumber display ↔ outcome.IsFinite
  undefined : display = Display.undefined ↔ outcome = .undefined
  infinite : display = Display.infinite ↔ outcome = .infinite
  malformed : display = error ↔ outcome = .malformed
  total : IsNumber display ∨ display = Display.undefined ∨ display = Display.infinite ∨
    display = error

/-- What a display in a base tells about the outcome. -/
structure TellsIn (r : Radix) (display : Text) (outcome : Outcome) : Prop where
  /-- An integer is displayed for a finite value alone. -/
  integer : r.IsInteger display ↔ outcome.IsFinite
  other : display = error ↔ ¬outcome.IsFinite

/-- A finite double is displayed as a number. -/
theorem isNumber_ofRounded (places : Nat) (negative : Bool) (units : Nat) :
    IsNumber (Text.ofRounded places (.finite negative units)) := by
  rw [Text.ofRounded_eq]
  exact (Double.isReduced_shown places negative units).isNumber negative

theorem tells_ofOutcome (places : Nat) {outcome : Outcome}
    (h : ∀ x, outcome = .value x → outcome.IsFinite) :
    Tells (ofOutcome places outcome) outcome := by
  have hother : ∀ display : Text, 'r' ∈ display → ¬IsNumber display :=
    fun _ hmem hnumber => hnumber.not_mem hmem
  cases outcome with
  | value x =>
    have hfinite := h x rfl
    obtain ⟨_, negative, units, ⟨⟩, hunits⟩ := h x rfl
    have hnumber := isNumber_ofRounded places negative units
    rw [← hunits] at hnumber
    have hne : ∀ text : Text, 'r' ∈ text → ofOutcome places (.value x) ≠ text := by
      rintro text hmem rfl
      exact hother _ hmem hnumber
    exact ⟨iff_of_true hnumber hfinite, iff_of_false (hne _ (by decide)) nofun,
      iff_of_false (hne _ (by decide)) nofun, iff_of_false (hne _ (by decide)) nofun,
      .inl hnumber⟩
  | undefined =>
    rw [ofOutcome]
    exact ⟨iff_of_false (hother _ (by decide)) nofun, iff_of_true rfl rfl,
      iff_of_false (by decide) nofun, iff_of_false (by decide) nofun, .inr (.inl rfl)⟩
  | infinite =>
    rw [ofOutcome]
    exact ⟨iff_of_false (hother _ (by decide)) nofun, iff_of_false (by decide) nofun,
      iff_of_true rfl rfl, iff_of_false (by decide) nofun, .inr (.inr (.inl rfl))⟩
  | malformed =>
    rw [ofOutcome]
    exact ⟨iff_of_false (hother _ (by decide)) nofun, iff_of_false (by decide) nofun,
      iff_of_false (by decide) nofun, iff_of_true rfl rfl, .inr (.inr (.inr rfl))⟩

theorem tellsIn_ofOutcomeIn (r : Radix) {outcome : Outcome}
    (h : ∀ x, outcome = .value x → outcome.IsFinite) :
    TellsIn r (ofOutcomeIn r outcome) outcome := by
  have hother : ¬r.IsInteger error := fun h =>
    h.not_mem (c := 'r') (by decide) (by decide) (by decide)
  cases outcome with
  | value x =>
    have hinteger := r.isInteger_render (Double.ofFloat x).truncate
    have hne : ofOutcomeIn r (.value x) ≠ error := by
      intro herror
      rw [← herror] at hother
      exact hother hinteger
    exact ⟨iff_of_true hinteger (h x rfl), iff_of_false hne (not_not_intro (h x rfl))⟩
  | undefined | infinite | malformed =>
    exact ⟨iff_of_false hother nofun, iff_of_true rfl nofun⟩

end Display

/-- **The display of a scientific expression tells its outcome.** -/
theorem Settings.scientificDisplay_tells (settings : Settings) (s : Text) :
    Display.Tells (settings.scientificDisplay s) (settings.scientificOutcome s) :=
  Display.tells_ofOutcome _ fun _ => Outcome.isFinite_of_eq_value

/-- **The display of a programmer expression tells whether it has a value.** -/
theorem programmerDisplay_tells (r : Radix) (s : Text) :
    Display.TellsIn r (programmerDisplay r s) (programmerOutcome r s) :=
  Display.tellsIn_ofOutcomeIn r fun _ => Outcome.isFinite_of_eq_value

/-- A display that does not read `Error` is an integer written in its base. -/
theorem exists_programmerDisplay_eq_render {r : Radix} {s : Text}
    (h : programmerDisplay r s ≠ Display.error) :
    ∃ n : Int64, programmerDisplay r s = r.render n := by
  rw [programmerDisplay] at h ⊢
  cases houtcome : programmerOutcome r s with
  | value x => exact ⟨_, rfl⟩
  | undefined | infinite | malformed =>
    rw [houtcome] at h
    exact absurd rfl h

end Calculator
