import Calculator.Outcome
import Mathlib.Data.List.Induction
import Mathlib.Data.Nat.Digits.Defs

/-!
# Literals and the integers that they stand for

A literal stands for an integer by the places of its digits. This is stated here without the reader:
the value of a digit is its place among the capital digits, and the value of a run of digits is the
sum over its places. Reading accepts exactly the literals whose integer has 64 bits, and writing an
integer gives the one of its literals that has capitals, no leading zeros and no plus sign.
-/

namespace Calculator.Radix

/-- The digits in the order of their values, as capitals. -/
def capitals : Text :=
  ['0', '1', '2', '3', '4', '5', '6', '7', '8', '9', 'A', 'B', 'C', 'D', 'E', 'F']

/-- The value of a digit of either case. -/
def digitValue (c : Char) : Nat := capitals.idxOf c.toUpper

/-- The value of digits by their places, where the last one counts once. -/
def positional (r : Radix) (digits : Text) : Nat :=
  Nat.ofDigits r.base (digits.reverse.map digitValue)

/-- A run of digits of a base. -/
def IsDigits (r : Radix) (digits : Text) : Prop :=
  digits ≠ [] ∧ ∀ c ∈ digits, r.hasDigit c = true

instance decidableIsDigits (r : Radix) (digits : Text) : Decidable (r.IsDigits digits) :=
  decidable_of_iff (digits.isEmpty = false ∧ digits.all r.hasDigit = true) <| by
    rw [IsDigits, List.isEmpty_eq_false_iff, List.all_eq_true]

/-- A literal of a base stands for an integer. -/
inductive Denotes (r : Radix) : Text → Int → Prop
  /-- Digits without a sign. -/
  | unsigned {digits} (h : r.IsDigits digits) : Denotes r digits (r.positional digits)
  /-- Digits after a plus sign. -/
  | plus {digits} (h : r.IsDigits digits) : Denotes r ('+' :: digits) (r.positional digits)
  /-- Digits after a minus sign. -/
  | minus {digits} (h : r.IsDigits digits) : Denotes r ('-' :: digits) (-(r.positional digits))

/-- Digits in the form in which a base writes a magnitude. -/
structure IsWritten (r : Radix) (digits : Text) : Prop where
  nonempty : digits ≠ []
  capital : ∀ c ∈ digits, c ∈ capitals.take r.base
  leading : digits.head? = some '0' → digits = ['0']

theorem mem_all (r : Radix) : r ∈ all := by cases r <;> decide

theorem two_le_base (r : Radix) : 2 ≤ r.base := by cases r <;> decide

theorem base_le_sixteen (r : Radix) : r.base ≤ 16 := by cases r <;> decide

/-- A digit of any base is an ASCII character. -/
theorem toNat_lt_of_digitOf? {c : Char} {k : Nat} (h : digitOf? c = some k) :
    c.toNat < 128 := by
  have hupperCase : c.isUpper = decide (c.val ≥ 'A'.val ∧ c.val ≤ 'Z'.val) := rfl
  have hlowerCase : c.isLower = (decide (c.val ≥ 'a'.val) && decide (c.val ≤ 'z'.val)) := rfl
  unfold digitOf? at h
  simp only [Char.isDigit, hupperCase, hlowerCase, Bool.and_eq_true, decide_eq_true_eq,
    ge_iff_le, UInt32.le_iff_toNat_le] at h
  simp only [Char.toNat]
  split at h
  · rename_i hdigit
    exact Nat.lt_of_le_of_lt hdigit.2 (by decide)
  · split at h
    · rename_i hupper
      exact Nat.lt_of_le_of_lt hupper.2 (by decide)
    · split at h
      · rename_i hlower
        exact Nat.lt_of_le_of_lt hlower.2 (by decide)
      · cases h

/-- What holds of all digits among the ASCII characters holds of every digit. -/
theorem forall_hasDigit {r : Radix} {P : Char → Prop}
    (hascii : ∀ code < 128, r.hasDigit (Char.ofNat code) = true → P (Char.ofNat code)) :
    ∀ c, r.hasDigit c = true → P c := by
  intro c hc
  obtain ⟨k, hk⟩ := Option.isSome_iff_exists.mp hc
  have hlt := toNat_lt_of_digitOf? (Option.filter_eq_some_iff.mp hk).1
  have hcode := hascii c.toNat hlt
  rw [Char.ofNat_toNat] at hcode
  exact hcode hc

/-- The letters and digits of ASCII up to `F` have the values that their order gives them. -/
private theorem digitValue_of_ascii : ∀ code < 128, ∀ k < 16,
    digitOf? (Char.ofNat code) = some k → digitValue (Char.ofNat code) = k := by
  decide +kernel

theorem digitValue_eq {c : Char} {k : Nat} (h : digitOf? c = some k) (hk : k < 16) :
    digitValue c = k := by
  have hvalue := digitValue_of_ascii c.toNat (toNat_lt_of_digitOf? h) k hk
  rw [Char.ofNat_toNat] at hvalue
  exact hvalue h

/-- The reader takes a digit of the base at its value, and nothing else. -/
theorem digit?_eq_some_iff {r : Radix} {c : Char} {k : Nat} :
    r.digit? c = some k ↔ r.hasDigit c = true ∧ k = digitValue c := by
  have hbase := r.base_le_sixteen
  constructor
  · intro h
    refine ⟨by rw [hasDigit, h, Option.isSome_some], ?_⟩
    obtain ⟨hvalue, hlt⟩ := Option.filter_eq_some_iff.mp h
    rw [decide_eq_true_eq] at hlt
    exact (digitValue_eq hvalue (by omega)).symm
  · rintro ⟨hdigit, rfl⟩
    obtain ⟨k, hk⟩ := Option.isSome_iff_exists.mp hdigit
    obtain ⟨hvalue, hlt⟩ := Option.filter_eq_some_iff.mp hk
    rw [decide_eq_true_eq] at hlt
    rw [hk, digitValue_eq hvalue (by omega)]

theorem positional_append_singleton (r : Radix) (digits : Text) (c : Char) :
    r.positional (digits ++ [c]) = r.positional digits * r.base + digitValue c := by
  rw [positional, positional, List.reverse_append, List.reverse_singleton, List.singleton_append,
    List.map_cons, Nat.ofDigits_cons, Nat.mul_comm, Nat.add_comm]

theorem magnitude?_append_singleton (r : Radix) (digits : Text) (c : Char) :
    r.magnitude? (digits ++ [c]) =
      (r.magnitude? digits).bind fun n => (r.digit? c).map (n * r.base + ·) := by
  simp [magnitude?, List.foldlM_append, Option.bind_eq_bind]

/-- Digits are read at their positional value. -/
theorem magnitude?_eq_some_iff {r : Radix} {digits : Text} {n : Nat} :
    r.magnitude? digits = some n ↔
      (∀ c ∈ digits, r.hasDigit c = true) ∧ n = r.positional digits := by
  induction digits using List.reverseRecOn generalizing n with
  | nil =>
    simp only [magnitude?, positional, List.foldlM_nil, Option.pure_def, Option.some.injEq,
      List.not_mem_nil, false_implies, implies_true, true_and, List.reverse_nil, List.map_nil,
      Nat.ofDigits_nil]
    exact eq_comm
  | append_singleton digits c ih =>
    rw [magnitude?_append_singleton, positional_append_singleton]
    simp only [Option.bind_eq_some_iff, Option.map_eq_some_iff, digit?_eq_some_iff, ih]
    constructor
    · rintro ⟨m, ⟨hdigits, rfl⟩, k, ⟨hc, rfl⟩, rfl⟩
      refine ⟨?_, rfl⟩
      intro d hd
      rcases List.mem_append.mp hd with hd | hd
      · exact hdigits d hd
      · rwa [List.mem_singleton.mp hd]
    · rintro ⟨hdigits, rfl⟩
      exact ⟨_, ⟨fun d hd => hdigits d (List.mem_append_left _ hd), rfl⟩, _,
        ⟨hdigits c (by simp), rfl⟩, rfl⟩

/-- The integers with 64 bits are converted exactly. -/
theorem toInt64?_eq_some_iff {v : Int} {n : Int64} : toInt64? v = some n ↔ n.toInt = v := by
  unfold toInt64?
  constructor
  · intro h
    split at h
    · rename_i hrange
      cases h
      rw [Int64.toInt_minValue, Int64.toInt_maxValue] at hrange
      exact Int64.toInt_ofInt_of_le hrange.1 (by omega)
    · cases h
  · rintro rfl
    rw [if_pos ⟨n.minValue_le_toInt, n.toInt_le⟩, Int64.ofInt_toInt]

/-- No sign is a digit. -/
private theorem IsDigits.head_ne {r : Radix} {digits : Text} (h : r.IsDigits digits) :
    ∀ rest, digits ≠ '-' :: rest ∧ digits ≠ '+' :: rest := by
  intro rest
  constructor
  · rintro rfl
    exact absurd (h.2 '-' (by simp)) (by cases r <;> decide)
  · rintro rfl
    exact absurd (h.2 '+' (by simp)) (by cases r <;> decide)

/-- The integer that digits after a sign are read at. -/
private theorem readSigned_eq_some_iff {r : Radix} {digits : Text} (sign : Nat → Int) {n : Int64} :
    (if digits.isEmpty then none else (r.magnitude? digits).bind fun m => toInt64? (sign m)) =
        some n ↔
      r.IsDigits digits ∧ n.toInt = sign (r.positional digits) := by
  rw [IsDigits]
  split
  · rename_i hempty
    simp [List.isEmpty_iff.mp hempty]
  · rename_i hne
    rw [List.isEmpty_iff] at hne
    simp only [Option.bind_eq_some_iff, magnitude?_eq_some_iff, toInt64?_eq_some_iff, ne_eq, hne,
      not_false_eq_true, true_and]
    constructor
    · rintro ⟨m, ⟨hdigits, rfl⟩, hn⟩
      exact ⟨hdigits, hn⟩
    · rintro ⟨hdigits, hn⟩
      exact ⟨_, ⟨hdigits, rfl⟩, hn⟩

private theorem parse?_eq (r : Radix) (s : Text) :
    r.parse? s = if (splitSign s).2.isEmpty then none
      else (r.magnitude? (splitSign s).2).bind fun m =>
        toInt64? (if (splitSign s).1 then -(m : Int) else m) := by
  unfold parse?
  dsimp only
  cases (splitSign s).2.isEmpty <;> rfl

/-- **A literal is read exactly if it stands for an integer with 64 bits**, and as this integer. -/
theorem parse?_eq_some_iff {r : Radix} {s : Text} {n : Int64} :
    r.parse? s = some n ↔ r.Denotes s n.toInt := by
  rw [parse?_eq, readSigned_eq_some_iff fun m => if (splitSign s).1 then -(m : Int) else m]
  generalize n.toInt = v
  unfold splitSign
  split
  · rename_i digits
    constructor
    · rintro ⟨hdigits, rfl⟩
      exact .minus hdigits
    · intro h
      cases h with
      | unsigned h => exact absurd rfl (h.head_ne digits).1
      | minus h => exact ⟨h, rfl⟩
  · rename_i digits
    constructor
    · rintro ⟨hdigits, rfl⟩
      exact .plus hdigits
    · intro h
      cases h with
      | unsigned h => exact absurd rfl (h.head_ne digits).2
      | plus h => exact ⟨h, rfl⟩
  · rename_i hminus hplus
    constructor
    · rintro ⟨hdigits, rfl⟩
      exact .unsigned hdigits
    · intro h
      cases h with
      | unsigned h => exact ⟨h, rfl⟩
      | plus h => exact absurd rfl (hplus _)
      | minus h => exact absurd rfl (hminus _)

/-- The digits of a magnitude as a base writes them. -/
def digitsOf (r : Radix) (n : Nat) : Text := (Nat.toDigits r.base n).map Char.toUpper

theorem digitsOf_eq (r : Radix) (n : Nat) :
    r.digitsOf n = if n < r.base then [(Nat.digitChar n).toUpper]
      else r.digitsOf (n / r.base) ++ [(Nat.digitChar (n % r.base)).toUpper] := by
  have hbase := r.two_le_base
  rw [digitsOf, digitsOf, Nat.toDigits_eq_if (by omega)]
  split
  · rfl
  · rw [List.map_append, List.map_cons, List.map_nil]

/-- Digits that are read at their values give the number that they are the digits of. -/
theorem magnitude?_map_toDigits {r : Radix} {f : Char → Char}
    (hf : ∀ k < r.base, r.digit? (f (Nat.digitChar k)) = some k) (n : Nat) :
    r.magnitude? ((Nat.toDigits r.base n).map f) = some n := by
  have hbase := r.two_le_base
  induction n using Nat.strong_induction_on with
  | _ n ih =>
    rw [Nat.toDigits_eq_if (by omega)]
    split
    · rename_i hlt
      have hsingle := r.magnitude?_append_singleton [] (f (Nat.digitChar n))
      rw [List.nil_append, hf n hlt] at hsingle
      rw [List.map_singleton, hsingle]
      simp [magnitude?]
    · rename_i hge
      have hdiv : n / r.base < n := Nat.div_lt_self (by omega) (by omega)
      rw [List.map_append, List.map_singleton, magnitude?_append_singleton, ih _ hdiv,
        hf _ (Nat.mod_lt _ (by omega)), Option.bind_some, Option.map_some, Nat.div_add_mod']

/-- A value below the base is written as the capital of this value. -/
private theorem digitChar_written (r : Radix) : ∀ k < r.base,
    (Nat.digitChar k).toUpper ∈ capitals.take r.base ∧
      r.digit? (Nat.digitChar k).toUpper = some k := by
  cases r <;> decide

/-- The digits that are written for a magnitude have its value. -/
theorem positional_digitsOf (r : Radix) (n : Nat) : r.positional (r.digitsOf n) = n :=
  (magnitude?_eq_some_iff.mp
    (magnitude?_map_toDigits (fun k hk => (digitChar_written r k hk).2) n)).2.symm

/-- A magnitude is written with capitals and without leading zeros. -/
theorem isWritten_digitsOf (r : Radix) (n : Nat) : r.IsWritten (r.digitsOf n) := by
  have hbase := r.two_le_base
  induction n using Nat.strong_induction_on with
  | _ n ih =>
    rw [digitsOf_eq]
    split
    · rename_i hlt
      refine ⟨List.cons_ne_nil _ _, ?_, ?_⟩
      · intro c hc
        rw [List.mem_singleton.mp hc]
        exact (digitChar_written r n hlt).1
      · intro hhead
        rw [List.head?_cons, Option.some.injEq] at hhead
        rw [hhead]
    · rename_i hge
      have hdiv : n / r.base < n := Nat.div_lt_self (by omega) (by omega)
      have hpos : 0 < n / r.base := Nat.div_pos (by omega) (by omega)
      have hmod : n % r.base < r.base := Nat.mod_lt _ (by omega)
      have hih := ih _ hdiv
      refine ⟨List.append_ne_nil_of_left_ne_nil hih.nonempty _, ?_, ?_⟩
      · intro c hc
        rcases List.mem_append.mp hc with hc | hc
        · exact hih.capital c hc
        · rw [List.mem_singleton.mp hc]
          exact (digitChar_written r _ hmod).1
      · -- a leading zero would be the only digit of a positive quotient
        intro hhead
        rw [List.head?_append, List.head?_eq_some_head hih.nonempty, Option.some_or,
          ← List.head?_eq_some_head hih.nonempty] at hhead
        have hvalue := r.positional_digitsOf (n / r.base)
        rw [hih.leading hhead] at hvalue
        have hzero : r.positional ['0'] = 0 := by cases r <;> decide
        omega

theorem IsWritten.isDigits {r : Radix} {digits : Text} (h : r.IsWritten digits) :
    r.IsDigits digits := by
  have hcapitals : (capitals.take r.base).all r.hasDigit = true := by cases r <;> decide
  rw [List.all_eq_true] at hcapitals
  exact ⟨h.nonempty, fun c hc => hcapitals c (h.capital c hc)⟩

/-- An integer with 64 bits is negative if the integer is. -/
theorem lt_zero_iff {n : Int64} : n < 0 ↔ n.toInt < 0 := by
  rw [Int64.lt_iff_toInt_lt, Int64.toInt_zero]

theorem render_eq (r : Radix) (n : Int64) :
    r.render n = (if n < 0 then ['-'] else []) ++ r.digitsOf n.toInt.natAbs := by
  rw [render, digitsOf]
  split <;> rfl

/-- What is written for an integer denotes it. -/
theorem denotes_render (r : Radix) (n : Int64) : r.Denotes (r.render n) n.toInt := by
  have hdigits := (isWritten_digitsOf r n.toInt.natAbs).isDigits
  have hvalue := r.positional_digitsOf n.toInt.natAbs
  rw [render_eq]
  split
  · rename_i hneg
    have hdenotes := Denotes.minus hdigits
    have habs : -(n.toInt.natAbs : Int) = n.toInt := by
      have := lt_zero_iff.mp hneg
      omega
    rwa [hvalue, habs] at hdenotes
  · rename_i hnonneg
    have hdenotes := Denotes.unsigned hdigits
    have habs : (n.toInt.natAbs : Int) = n.toInt := by
      have := mt lt_zero_iff.mpr hnonneg
      omega
    rwa [hvalue, habs] at hdenotes

/-- What is written for an integer is read as this integer. -/
theorem parse?_render (r : Radix) (n : Int64) : r.parse? (r.render n) = some n :=
  parse?_eq_some_iff.mpr (r.denotes_render n)

/-- The digits of base ten are those of ordinary decimal texts. -/
theorem digitsOf_dec (n : Nat) : dec.digitsOf n = Text.ofNat n := by
  have hupper : ∀ c ∈ Nat.toDigits 10 n, c.toUpper = id c := by
    intro c hc
    have hdigit := Nat.isDigit_of_mem_toDigits (by decide) (by decide) hc
    simp only [Char.isDigit, Bool.and_eq_true, decide_eq_true_eq, ge_iff_le] at hdigit
    have hnotLower : ¬('a'.val ≤ c.val ∧ c.val ≤ 'z'.val) := fun hlower =>
      absurd (UInt32.le_trans hlower.1 hdigit.2) (by decide)
    exact dif_neg hnotLower
  exact (List.map_congr_left hupper).trans (List.map_id _)

/-- The ordinary decimal text of an integer is its magnitude after a sign if it is negative. -/
theorem toList_toString (n : Int) :
    (toString n).toList = (if n < 0 then ['-'] else []) ++ Text.ofNat n.natAbs := by
  rw [Int.toString_eq_repr, Int.repr_eq_if]
  by_cases hneg : n < 0
  · rw [if_pos hneg, if_neg (by omega), Nat.repr_eq_ofList_toDigits, String.toList_append,
      String.toList_ofList, String.toList_ofList, show (-n).toNat = n.natAbs by omega]
    rfl
  · rw [if_neg hneg, if_pos (by omega), Nat.repr_eq_ofList_toDigits, String.toList_ofList,
      show n.toNat = n.natAbs by omega]
    rfl

/-- An integer is written in base ten as its ordinary decimal text. -/
theorem render_dec (n : Int64) : dec.render n = (toString n.toInt).toList := by
  rw [render_eq, digitsOf_dec, toList_toString]
  by_cases hneg : n < 0
  · rw [if_pos hneg, if_pos (lt_zero_iff.mp hneg)]
  · rw [if_neg hneg, if_neg (mt lt_zero_iff.mpr hneg)]

theorem ofInt64_eq_render (n : Int64) : Text.ofInt64 n = dec.render n := by
  rw [render_eq, digitsOf_dec, Text.ofInt64]
  split <;> rfl

/-- An integer that is not negative is written with its digits alone. -/
theorem render_of_nonneg (r : Radix) {n : Int64} (hn : 0 ≤ n.toInt) :
    r.render n = r.digitsOf n.toInt.natAbs := by
  have hnonneg : ¬n < 0 := by
    rw [lt_zero_iff]
    omega
  rw [render_eq, if_neg hnonneg]
  rfl

/-- **Reading and writing integers in a base are inverse to each other.** What is written for an
integer reads back, has a minus sign exactly if the integer is negative, and is otherwise made of
capital digits without leading zeros; in base ten it is the ordinary decimal text. A text is read as
an integer exactly if it denotes it, and all other texts are refused with their base. -/
theorem parse_render_inverse (r : Radix) :
    (∀ n : Int64, r.parse (r.render n) = .ok n ∧
      (∃ digits, r.render n = (if n < 0 then ['-'] else []) ++ digits ∧ r.IsWritten digits) ∧
      dec.render n = Display.ofInt64 n none ∧ dec.render n = (toString n.toInt).toList) ∧
    ∀ s : Text, (∀ n : Int64, r.parse s = .ok n ↔ r.Denotes s n.toInt) ∧
      (r.parse s = .error (.literal s r.base) ↔ ¬∃ n : Int64, r.Denotes s n.toInt) := by
  have hparse (s : Text) (n : Int64) : r.parse s = .ok n ↔ r.Denotes s n.toInt := by
    rw [← parse?_eq_some_iff, parse]
    cases r.parse? s <;> simp
  refine ⟨fun n => ⟨?_, ?_, ?_, render_dec n⟩, fun s => ⟨hparse s, ?_⟩⟩
  · exact (hparse _ n).mpr (r.denotes_render n)
  · exact ⟨_, r.render_eq n, r.isWritten_digitsOf _⟩
  · rw [render_eq, digitsOf_dec, Display.ofInt64, Text.ofInt64]
    split <;> rfl
  · simp only [← parse?_eq_some_iff, parse]
    cases r.parse? s <;> simp

/-- The least integer is read although its magnitude is no 64-bit integer, and the next one below is
refused. -/
example : hex.parse "-8000000000000000" = .ok Int64.minValue ∧
    hex.parse "-8000000000000001" = .error (.literal "-8000000000000001" 16) := by
  decide +kernel

end Calculator.Radix
