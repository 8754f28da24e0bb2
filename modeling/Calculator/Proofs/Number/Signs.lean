import Calculator.Number.Decimal
import Calculator.Proofs.Number.Bits

/-!
# Signs of sums, products and quotients

Rounding does not look at the sign of a number. So a sign can be moved out of a product or a
quotient, and a difference is a sum with a sign changed. Adding to a zero changes at most the sign
of a zero, which no display shows.
-/

namespace Calculator.Double

open Float.Model (Format)
open Float.Model.UnpackedFloat

variable {x y z : Float}

/-- The view of a double on which the model computes. -/
def view (x : Float) : Float.Model.UnpackedFloat := unpack Format.binary64 x.toBits.toBitVec

theorem toBits_add (x y : Float) :
    (x + y).toBits.toBitVec = pack Format.binary64 (add Format.binary64 (view x) (view y)) := rfl

theorem toBits_sub (x y : Float) :
    (x - y).toBits.toBitVec = pack Format.binary64 (sub Format.binary64 (view x) (view y)) := rfl

theorem toBits_mul (x y : Float) :
    (x * y).toBits.toBitVec = pack Format.binary64 (mul Format.binary64 (view x) (view y)) := rfl

theorem toBits_div (x y : Float) :
    (x / y).toBits.toBitVec = pack Format.binary64 (div Format.binary64 (view x) (view y)) := rfl

theorem pack_view (x : Float) : pack Format.binary64 (view x) = x.toBits.toBitVec :=
  pack_unpack_of_valid x.toModel.valid

theorem view_nan : view (0.0 / 0.0) = .notANumber :=
  (unpack_eq_notANumber_iff_of_valid (0.0 / 0.0 : Float).toModel.valid).mpr (by decide)

/-! ## Negation -/

private theorem neg_nan : (-(0.0 / 0.0) : Float) = 0.0 / 0.0 := by
  apply eq_of_toBitVec
  decide

/-- Negation changes the sign of the bits of a number. -/
private theorem toBits_neg_of_components {s : Sign} {e : BitVec Format.binary64.exponentBits}
    {m : BitVec Format.binary64.mantissaBitsWithoutImplicit} (hnumber : e = -1#_ → m = 0#_)
    (h : x.toBits.toBitVec = packComponents Format.binary64 s e m) :
    (-x).toBits.toBitVec = packComponents Format.binary64 (-s) e m := by
  rw [toBits_neg, h, neg_unpack_packComponents, pack_unpack_of_valid (valid_packComponents hnumber)]

/-- Negation changes the sign of the view. -/
theorem view_neg (x : Float) : view (-x) = (view x).neg := by
  rcases eq_nan_or_components x with rfl | ⟨s, e, m, hnumber, hbits⟩
  · rw [neg_nan, view_nan]
    rfl
  · rw [view, view, toBits_neg_of_components hnumber hbits, hbits, neg_unpack_packComponents]

/-- What is packed with the sign changed is the negation. -/
theorem toBits_neg_of_pack {w : Float.Model.UnpackedFloat}
    (h : x.toBits.toBitVec = pack Format.binary64 w) :
    (-x).toBits.toBitVec = pack Format.binary64 w.neg := by
  cases w with
  | notANumber =>
    have hnan : (0.0 / 0.0 : Float).toBits.toBitVec = pack Format.binary64 .notANumber := by
      decide
    rw [eq_of_toBitVec (h.trans hnan.symm), neg_nan]
    exact hnan
  | infinity s => exact toBits_neg_of_components (fun _ => rfl) h
  | zero s => exact toBits_neg_of_components (fun _ => rfl) h
  | finite s m e hm =>
    simp only [neg, pack] at h ⊢
    split_ifs at h ⊢ with hinfinite hnormal
    · exact toBits_neg_of_components (fun _ => rfl) h
    · refine toBits_neg_of_components (fun hones => ?_) h
      -- the exponent of infinity has been ruled out
      have hexponent := congrArg BitVec.toNat hones
      rw [BitVec.toNat_ofNat] at hexponent
      change _ = 2047 at hexponent
      change ¬2 ^ 11 ≤ _ at hinfinite
      generalize (e + _ + _).toNat = biased at hexponent hinfinite
      change biased % 2 ^ 11 = _ at hexponent
      omega
    · exact toBits_neg_of_components (fun hones => absurd hones (by decide)) h

theorem neg_eq_of_toBits {w : Float.Model.UnpackedFloat}
    (hx : x.toBits.toBitVec = pack Format.binary64 w.neg)
    (hy : y.toBits.toBitVec = pack Format.binary64 w) : x = -y :=
  eq_of_toBitVec (hx.trans (toBits_neg_of_pack hy).symm)

/-! ## Products, quotients and differences -/

theorem neg_mul_sign (s t : Sign) : -s * t = -(s * t) := by cases s <;> cases t <;> rfl

theorem neg_div_sign (s t : Sign) : -s / t = -(s / t) := by cases s <;> cases t <;> rfl

theorem roundWithAccuracy_neg (s : Sign) (m : Nat) (e : Int) (a : Accuracy) :
    roundWithAccuracy Format.binary64 (-s) m e a =
      (roundWithAccuracy Format.binary64 s m e a).neg := by
  simp only [roundWithAccuracy]
  split <;> rfl

/-- A sign can be moved out of a product. -/
theorem neg_mul (x y : Float) : -x * y = -(x * y) := by
  apply neg_eq_of_toBits _ (toBits_mul x y)
  rw [toBits_mul, view_neg]
  congr 1
  cases view x <;> cases view y <;>
    simp only [neg, mul, neg_mul_sign, roundWithAccuracy_neg]

/-- A sign can be moved out of a quotient. -/
theorem neg_div (x y : Float) : -x / y = -(x / y) := by
  apply neg_eq_of_toBits _ (toBits_div x y)
  rw [toBits_div, view_neg]
  congr 1
  cases view x <;> cases view y <;>
    simp only [neg, div, neg_div_sign, roundWithAccuracy_neg]

/-- A difference is a sum with a sign changed. -/
theorem sub_eq_add_neg (x y : Float) : x - y = x + -y := by
  apply eq_of_toBitVec
  rw [toBits_sub, toBits_add, view_neg]
  congr 1
  have happly (s : Sign) (n : Int) : (-s).apply n = -s.apply n := by
    cases s
    · exact (neg_neg n).symm
    · rfl
  cases view x <;> cases view y <;> simp only [neg, add, sub, happly, Int.sub_eq_add_neg]

/-! ## Zeros -/

/-- A double that is one of the two zeros. -/
def IsZero (x : Float) : Prop := ∃ s, view x = .zero s

/-- Two doubles that are the same, but for the sign of a zero. -/
def SameValue (x y : Float) : Prop := x = y ∨ IsZero x ∧ IsZero y

theorem isZero_of_pack {s : Sign} (h : x.toBits.toBitVec = pack Format.binary64 (.zero s)) :
    IsZero x :=
  ⟨s, by rw [view, h]; exact unpack_packedZero⟩

/-- The number zero is read as a zero. -/
theorem isZero_toFloat : IsZero (Decimal.toFloat ⟨0, 0⟩) :=
  isZero_of_pack (s := .positive) (by decide +kernel)

/-- Adding to a zero gives what is added, or both are zeros. -/
theorem IsZero.add (hx : IsZero x) (y : Float) : SameValue (x + y) y := by
  obtain ⟨s, hs⟩ := hx
  have hbits := toBits_add x y
  rw [hs] at hbits
  cases hy : view y with
  | zero t =>
    rw [hy] at hbits
    refine .inr ⟨?_, t, hy⟩
    cases s <;> cases t <;> exact isZero_of_pack hbits
  | notANumber | infinity t | finite t m e hm =>
    left
    apply eq_of_toBitVec
    rw [hbits, hy, ← pack_view y, hy]
    rfl

namespace SameValue

theorem refl (x : Float) : SameValue x x := .inl rfl

theorem symm (h : SameValue x y) : SameValue y x := h.imp Eq.symm And.symm

theorem trans (hxy : SameValue x y) (hyz : SameValue y z) : SameValue x z := by
  rcases hxy with rfl | ⟨hx, hy⟩
  · exact hyz
  · rcases hyz with rfl | ⟨-, hz⟩
    · exact .inr ⟨hx, hy⟩
    · exact .inr ⟨hx, hz⟩

/-- The sign of a zero makes no difference to a sum. -/
theorem add_right (h : SameValue x y) (z : Float) : SameValue (x + z) (y + z) := by
  rcases h with rfl | ⟨hx, hy⟩
  · exact refl _
  · exact (hx.add z).trans (hy.add z).symm

/-- The sign of a zero makes no difference to what is subtracted from it. -/
theorem sub_right (h : SameValue x y) (z : Float) : SameValue (x - z) (y - z) := by
  rw [sub_eq_add_neg, sub_eq_add_neg]
  exact h.add_right _

end SameValue

/-- A zero has no units. -/
theorem IsZero.eq_finite (h : IsZero x) : ∃ negative, ofFloat x = .finite negative 0 := by
  obtain ⟨s, hs⟩ := h
  have hbits : x.toBits.toNat = s.toBitVec.toNat * 2 ^ 63 + 0 := by
    rw [← UInt64.toNat_toBitVec, ← pack_view, hs, pack, packedZero, toNat_packComponents]
    simp only [BitVec.ofNat_eq_ofNat, BitVec.toNat_zero, Nat.zero_mul, Nat.add_zero]
  have hfinite (negative : Bool) := ofBits_eq_finite negative (show 0 < infinityBits by decide)
  rw [ofFloat, hbits]
  cases s with
  | negative => exact ⟨true, hfinite true⟩
  | positive => exact ⟨false, hfinite false⟩

end Calculator.Double
