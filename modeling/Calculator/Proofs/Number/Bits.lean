import Calculator.Number.Double
import Mathlib

/-!
# Doubles and their bits

The model of `Float` computes by taking 64 bits apart into a sign, an exponent and a mantissa. This
file proves that only one double is no number and that negation changes the sign bit and nothing
else, so every other double is its magnitude or the negation of it.
-/

namespace Calculator.Double

open Float.Model (Format)
open Float.Model.UnpackedFloat

variable {x : Float} {s : Sign} {e : BitVec Format.binary64.exponentBits}
  {m : BitVec Format.binary64.mantissaBitsWithoutImplicit}

/-! ## Sign, exponent and mantissa -/

theorem toNat_packComponents : (packComponents Format.binary64 s e m).toNat =
    s.toBitVec.toNat * 2 ^ 63 + e.toNat * 2 ^ 52 + m.toNat := by
  rw [packComponents, BitVec.toNat_append, BitVec.toNat_append,
    ← Nat.shiftLeft_add_eq_or_of_lt m.isLt, ← Nat.shiftLeft_add_eq_or_of_lt e.isLt,
    Nat.shiftLeft_eq, Nat.shiftLeft_eq, Nat.add_mul, Nat.mul_assoc, ← Nat.pow_add]
  rfl

/-- All bits are a sign, an exponent and a mantissa. -/
theorem exists_packComponents (b : BitVec Format.binary64.numBits) :
    ∃ s e m, b = packComponents Format.binary64 s e m :=
  ⟨_, _, _, (packComponents_unpackSign_unpackExponent_unpackMantissa b).symm⟩

/-- Negation changes the sign and nothing else. -/
theorem neg_unpack_packComponents :
    (unpack Format.binary64 (packComponents Format.binary64 s e m)).neg =
      unpack Format.binary64 (packComponents Format.binary64 (-s) e m) := by
  simp only [unpack, unpackMantissa_packComponents, unpackExponent_packComponents,
    unpackSign_packComponents, Sign.ofBitVec_toBitVec]
  split
  · split <;> rfl
  · split
    · split <;> rfl
    · rfl

/-- Bits with any mantissa but that of no number are valid. -/
theorem valid_packComponents (hnumber : e = -1#_ → m = 0#_) :
    Format.binary64.Valid (packComponents Format.binary64 s e m) := by
  constructor
  intro hexponent hmantissa
  rw [unpackExponent_packComponents] at hexponent
  rw [unpackMantissa_packComponents] at hmantissa
  exact absurd (hnumber hexponent) hmantissa

/-! ## Magnitudes -/

theorem toBits_neg (x : Float) :
    (-x).toBits.toBitVec = pack Format.binary64 (unpack Format.binary64 x.toBits.toBitVec).neg :=
  rfl

theorem toBits_ofBits (bits : UInt64) : (Float.ofBits bits).toBits.toBitVec =
    pack Format.binary64 (unpack Format.binary64 bits.toBitVec) :=
  rfl

theorem eq_of_toBitVec {x y : Float} (h : x.toBits.toBitVec = y.toBits.toBitVec) : x = y :=
  Float.toBits_inj.mp (UInt64.toBitVec_inj.mp h)

/-- A double is no number, the only one of its kind, or its bits are those of a number. -/
theorem eq_nan_or_components (x : Float) : x = 0.0 / 0.0 ∨
    ∃ s e m, (e = -1#_ → m = 0#_) ∧ x.toBits.toBitVec = packComponents Format.binary64 s e m := by
  have hvalid : Format.binary64.Valid x.toBits.toBitVec := x.toModel.valid
  obtain ⟨s, e, m, hbits⟩ := exists_packComponents x.toBits.toBitVec
  by_cases hnumber : e = -1#_ → m = 0#_
  · exact .inr ⟨s, e, m, hnumber, hbits⟩
  · left
    rw [Classical.not_imp] at hnumber
    rw [hbits] at hvalid
    have hnan := hvalid.eq_packedNaN (by rw [unpackExponent_packComponents, hnumber.1])
      (by rw [unpackMantissa_packComponents]; exact hnumber.2)
    apply eq_of_toBitVec
    rw [hbits, hnan]
    decide

/-- The bits of a double without the sign. -/
def magnitudeBits (x : Float) : Nat := x.toBits.toNat % 2 ^ 63

/-- The double without its sign. -/
def magnitude (x : Float) : Float := Float.ofBits (UInt64.ofNat (magnitudeBits x))

/-- A double is no number, or its magnitude is at most infinity and it is its magnitude or the
negation of it, as its sign says. -/
theorem eq_nan_or_eq_magnitude (x : Float) : x = 0.0 / 0.0 ∨ magnitudeBits x ≤ infinityBits ∧
    x = if 2 ^ 63 ≤ x.toBits.toNat then -magnitude x else magnitude x := by
  rcases eq_nan_or_components x with rfl | ⟨s, e, m, hnumber, hbits⟩
  · exact .inl rfl
  right
  have he : e.toNat < 2 ^ 11 := e.isLt
  have hm : m.toNat < 2 ^ 52 := m.isLt
  have hnat : x.toBits.toNat = s.toBitVec.toNat * 2 ^ 63 + e.toNat * 2 ^ 52 + m.toNat := by
    rw [← toNat_packComponents, ← hbits]
    rfl
  have hmagnitudeBits : magnitudeBits x = e.toNat * 2 ^ 52 + m.toNat := by
    rw [magnitudeBits, hnat]
    omega
  have hmagnitude : (magnitude x).toBits.toBitVec =
      packComponents Format.binary64 .positive e m := by
    have hpositive : (UInt64.ofNat (magnitudeBits x)).toBitVec =
        packComponents Format.binary64 .positive e m := by
      rw [← BitVec.toNat_inj, toNat_packComponents, UInt64.toNat_toBitVec, UInt64.toNat_ofNat',
        hmagnitudeBits]
      simp only [Sign.toBitVec, BitVec.toNat_ofNat]
      omega
    rw [magnitude, toBits_ofBits, hpositive, pack_unpack_of_valid (valid_packComponents hnumber)]
  constructor
  · rw [hmagnitudeBits, infinityBits]
    by_cases hones : e = -1#_
    · simp only [hnumber hones, BitVec.toNat_ofNat]
      omega
    · have hexponent : e.toNat ≠ 2047 := fun h => hones (BitVec.toNat_inj.mp h)
      omega
  · apply eq_of_toBitVec
    cases s with
    | negative =>
      have hsign : 2 ^ 63 ≤ x.toBits.toNat := by
        rw [hnat]
        simp only [Sign.toBitVec, BitVec.toNat_ofNat]
        omega
      rw [if_pos hsign, toBits_neg, hmagnitude, neg_unpack_packComponents,
        pack_unpack_of_valid (valid_packComponents hnumber), hbits]
      rfl
    | positive =>
      have hsign : ¬2 ^ 63 ≤ x.toBits.toNat := by
        rw [hnat]
        simp only [Sign.toBitVec, BitVec.toNat_ofNat]
        omega
      rw [if_neg hsign, hmagnitude, hbits]

/-- What is no number is always the same double. -/
theorem eq_of_ofFloat_eq_nan (h : ofFloat x = .nan) : x = 0.0 / 0.0 := by
  rcases eq_nan_or_eq_magnitude x with hnan | ⟨hle, _⟩
  · exact hnan
  · rw [magnitudeBits] at hle
    simp only [ofFloat, ofBits] at h
    split_ifs at h
    omega

/-- There are two infinite doubles. -/
theorem eq_of_ofFloat_eq_infinite {negative : Bool} (h : ofFloat x = .infinite negative) :
    x = if negative then -(1.0 / 0.0) else 1.0 / 0.0 := by
  simp only [ofFloat, ofBits] at h
  split_ifs at h with hlt heq
  cases h
  have hmagnitude : magnitude x = 1.0 / 0.0 := by
    rw [magnitude, magnitudeBits, heq]
    apply eq_of_toBitVec
    decide
  rcases eq_nan_or_eq_magnitude x with rfl | ⟨_, hx⟩
  · revert heq
    decide
  · rw [hmagnitude] at hx
    simpa using hx

/-- A finite double is its magnitude or the negation of it. -/
theorem eq_of_ofFloat_eq_finite {negative : Bool} {units : Nat}
    (h : ofFloat x = .finite negative units) :
    x = if negative then -magnitude x else magnitude x := by
  simp only [ofFloat, ofBits] at h
  split_ifs at h with hlt
  cases h
  rcases eq_nan_or_eq_magnitude x with rfl | ⟨_, hx⟩
  · revert hlt
    decide
  · simpa using hx

/-! ## Finite doubles -/

/-- The units of a finite double are those of its magnitude. -/
theorem units_eq_of_ofFloat {negative : Bool} {units : Nat}
    (h : ofFloat x = .finite negative units) :
    magnitudeBits x < infinityBits ∧ units = unitsOfBits (magnitudeBits x) := by
  simp only [ofFloat, ofBits] at h
  split_ifs at h with hlt
  cases h
  exact ⟨hlt, rfl⟩

/-- Bits below those of infinity, with a sign bit or without, are those of a finite double. -/
theorem ofBits_eq_finite (negative : Bool) {bits : Nat} (h : bits < infinityBits) :
    ofBits ((if negative then 2 ^ 63 else 0) + bits) = .finite negative (unitsOfBits bits) := by
  have hlt : bits < 2 ^ 63 := Nat.lt_trans h (by decide)
  have hmod : ((if negative then 2 ^ 63 else 0) + bits) % 2 ^ 63 = bits := by
    split <;> omega
  have hsign : decide (2 ^ 63 ≤ (if negative then 2 ^ 63 else 0) + bits) = negative := by
    cases negative with
    | false => simpa using hlt
    | true => simp
  simp only [ofBits, hmod, hsign, if_pos h]

/-- A double is built from the bits of a finite magnitude. -/
theorem ofFloat_ofBits {bits : Nat} (h : bits < infinityBits) :
    ofFloat (Float.ofBits (UInt64.ofNat bits)) = .finite false (unitsOfBits bits) := by
  obtain ⟨s, e, m, hbits⟩ := exists_packComponents (UInt64.ofNat bits).toBitVec
  have hnat : (UInt64.ofNat bits).toNat = bits := by
    rw [UInt64.toNat_ofNat']
    exact Nat.mod_eq_of_lt (Nat.lt_trans h (by decide))
  have hsum : bits = s.toBitVec.toNat * 2 ^ 63 + e.toNat * 2 ^ 52 + m.toNat := by
    rw [← toNat_packComponents, ← hbits, UInt64.toNat_toBitVec, hnat]
  have hnumber : e = -1#_ → m = 0#_ := by
    intro hones
    have hexponent : e.toNat = 2047 := by
      rw [hones]
      decide
    rw [infinityBits] at h
    omega
  have hback : (Float.ofBits (UInt64.ofNat bits)).toBits.toNat = bits := by
    have hpack := toBits_ofBits (UInt64.ofNat bits)
    rw [hbits, pack_unpack_of_valid (valid_packComponents hnumber), ← hbits] at hpack
    rw [← UInt64.toNat_toBitVec, hpack, UInt64.toNat_toBitVec, hnat]
  have hfinite := ofBits_eq_finite false h
  rw [ofFloat, hback]
  simpa using hfinite

/-- Negation changes the sign of a finite double. -/
theorem ofFloat_neg {negative : Bool} {units : Nat} (h : ofFloat x = .finite negative units) :
    ofFloat (-x) = .finite (!negative) units := by
  rcases eq_nan_or_components x with rfl | ⟨s, e, m, hnumber, hbits⟩
  · have hnan : ofFloat (0.0 / 0.0) = .nan := by decide
    rw [hnan] at h
    cases h
  obtain ⟨bits, hlt, hpos, hneg⟩ : ∃ bits < 2 ^ 63,
      x.toBits.toNat = s.toBitVec.toNat * 2 ^ 63 + bits ∧
        (-x).toBits.toNat = (-s).toBitVec.toNat * 2 ^ 63 + bits := by
    refine ⟨e.toNat * 2 ^ 52 + m.toNat, ?_, ?_, ?_⟩
    · have he : e.toNat < 2 ^ 11 := e.isLt
      have hm : m.toNat < 2 ^ 52 := m.isLt
      omega
    · rw [← Nat.add_assoc, ← toNat_packComponents, ← hbits]
      rfl
    · have hpack := toBits_neg x
      rw [hbits, neg_unpack_packComponents,
        pack_unpack_of_valid (valid_packComponents hnumber)] at hpack
      rw [← Nat.add_assoc, ← toNat_packComponents, ← hpack]
      rfl
  rw [ofFloat, hpos] at h
  rw [ofFloat, hneg]
  have hfinite : bits < infinityBits := by
    have hmod : (s.toBitVec.toNat * 2 ^ 63 + bits) % 2 ^ 63 = bits := by omega
    simp only [ofBits, hmod] at h
    split_ifs at h with hfinite
    exact hfinite
  have hview (sign : Bool) := ofBits_eq_finite sign hfinite
  cases s with
  | negative =>
    have hvalue : ofBits (Sign.negative.toBitVec.toNat * 2 ^ 63 + bits) =
        .finite true (unitsOfBits bits) := hview true
    rw [hvalue] at h
    cases h
    exact hview false
  | positive =>
    have hvalue : ofBits (Sign.positive.toBitVec.toNat * 2 ^ 63 + bits) =
        .finite false (unitsOfBits bits) := hview false
    rw [hvalue] at h
    cases h
    exact hview true

end Calculator.Double
