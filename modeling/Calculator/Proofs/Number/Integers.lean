import Calculator.Proofs.Number.Signs
import Calculator.Proofs.Number.Stability

/-!
# Integers as doubles

An integer of magnitude up to `2^53` is a double, and a sum, a difference or a product that is such
an integer is not rounded. What is computed with these doubles is what is computed with the
integers; only zero has two doubles. The 64-bit integer that such a double is cut to is the integer
itself.
-/

namespace Calculator.Double

open Float.Model (Format UnpackedFloat totalExponent)
open Float.Model.UnpackedFloat

variable {x y : Float} {s : Sign} {m : Nat} {e : Int}

/-! ## What is not rounded -/

/-- A mantissa of 53 bits. -/
def IsNormal (m : Nat) : Prop := 2 ^ 52 ≤ m ∧ m < 2 ^ 53

theorem IsNormal.pos (hm : IsNormal m) : 0 < m := Nat.lt_of_lt_of_le (by decide) hm.1

/-- The total exponent does not change when zeros are shifted in. -/
theorem totalExponent_mul_two_pow (hm : 0 < m) (shift : Nat) (e : Int) :
    totalExponent (m * 2 ^ shift) (e - shift) = totalExponent m e := by
  have hlog : (m * 2 ^ shift).log2 = m.log2 + shift := by
    induction shift with
    | zero => rw [Nat.pow_zero, Nat.mul_one, Nat.add_zero]
    | succ shift ih =>
      rw [Nat.pow_succ', Nat.mul_left_comm,
        Nat.log2_two_mul (Nat.mul_ne_zero hm.ne' (Nat.two_pow_pos shift).ne'), ih, Nat.add_assoc]
  rw [totalExponent, totalExponent, hlog]
  omega

/-- A mantissa of 53 bits keeps its exponent. -/
theorem targetExponent_of_isNormal (hm : IsNormal m) (he : -1074 ≤ e) :
    Format.binary64.targetExponent (totalExponent m e) = e := by
  have hlog : m.log2 = 52 := (Nat.log2_eq_iff hm.pos.ne').mpr hm
  change max ((m.log2 : Int) + 1 + e - 53) (-1074) = e
  omega

/-- Zeros are shifted out of a mantissa without a remainder. -/
theorem mul_two_pow_shiftRight (m shift : Nat) :
    (⟨m * 2 ^ shift, false, false⟩ : ExtendedMantissa) >>> shift = ⟨m, false, false⟩ := by
  induction shift generalizing m with
  | zero =>
    rw [Nat.pow_zero, Nat.mul_one]
    rfl
  | succ shift ih =>
    have hlast : (⟨m * 2 ^ (shift + 1), false, false⟩ : ExtendedMantissa) >>> (shift + 1) =
        ((⟨m * 2 * 2 ^ shift, false, false⟩ : ExtendedMantissa) >>> shift).shiftRightOne := by
      rw [Nat.mul_assoc, ← Nat.pow_succ']
      rfl
    rw [hlast, ih]
    simp [ExtendedMantissa.shiftRightOne]

/-- Zeros after a mantissa of 53 bits are shifted out again. -/
theorem shiftToTargetExponent_of_exact (hm : IsNormal m) (he : -1074 ≤ e) (shift : Nat) :
    shiftToTargetExponent Format.binary64 (m * 2 ^ shift) (e - shift) .exact =
      (⟨m, false, false⟩, e) := by
  have hshift : (e - (e - shift)).toNat = shift := by omega
  rw [shiftToTargetExponent, totalExponent_mul_two_pow hm.pos, targetExponent_of_isNormal hm he]
  simp only [shiftToExponent, hshift, ExtendedMantissa.ofMantissaAndAccuracy,
    mul_two_pow_shiftRight, Int.sub_add_cancel]

/-- A number whose mantissa has 53 bits and zeros after them is not rounded. -/
theorem roundWithAccuracy_of_exact (s : Sign) (hm : IsNormal m) (he : -1074 ≤ e) (shift : Nat) :
    roundWithAccuracy Format.binary64 s (m * 2 ^ shift) (e - shift) .exact =
      .finite s m e hm.pos := by
  have hfirst := shiftToTargetExponent_of_exact hm he shift
  have hagain := shiftToTargetExponent_of_exact hm he 0
  rw [Nat.pow_zero, Nat.mul_one, Int.natCast_zero, Int.sub_zero] at hagain
  have hrounded : (⟨m, false, false⟩ : ExtendedMantissa).roundedMantissa = m := rfl
  simp only [roundWithAccuracy, hfirst, hrounded, hagain, dif_neg hm.pos.ne']

/-- A number that is a mantissa of 53 bits with an exponent is not rounded. -/
theorem round_of_exact (s : Sign) (hm : IsNormal m) (he : -1074 ≤ e) {mantissa : Nat}
    {exponent : Int} {b c : Nat} (hvalue : mantissa * 2 ^ c = m * 2 ^ b)
    (hexponent : exponent + b = e + c) :
    UnpackedFloat.round Format.binary64 s mantissa exponent = .finite s m e hm.pos := by
  have htarget : Format.binary64.targetExponent (totalExponent mantissa exponent) = e := by
    have hpos : 0 < mantissa := by
      refine Nat.pos_of_ne_zero fun hzero => ?_
      rw [hzero, Nat.zero_mul] at hvalue
      exact (Nat.mul_pos hm.pos (Nat.two_pow_pos b)).ne hvalue
    have hexponent' : exponent - c = e - b := by omega
    rw [← totalExponent_mul_two_pow hpos c, hvalue, hexponent', totalExponent_mul_two_pow hm.pos,
      targetExponent_of_isNormal hm he]
  simp only [UnpackedFloat.round, htarget, decreaseExponent, Nat.shiftLeft_eq]
  rcases Nat.le_total b c with hle | hle
  · -- zeros are shifted in
    have hshift : (exponent - e).toNat = c - b := by omega
    have hmantissa : mantissa * 2 ^ (c - b) = m := by
      apply Nat.eq_of_mul_eq_mul_right (Nat.two_pow_pos b)
      rw [Nat.mul_assoc, ← Nat.pow_add, Nat.sub_add_cancel hle, hvalue]
    have hnormal : exponent - (c - b : Nat) = e := by omega
    have hround := roundWithAccuracy_of_exact s hm he 0
    rw [Nat.pow_zero, Nat.mul_one, Int.natCast_zero, Int.sub_zero] at hround
    rw [hshift, hmantissa, hnormal, hround]
  · -- zeros are shifted out
    have hshift : (exponent - e).toNat = 0 := by omega
    have hmantissa : mantissa = m * 2 ^ (b - c) := by
      apply Nat.eq_of_mul_eq_mul_right (Nat.two_pow_pos c)
      rw [Nat.mul_assoc, ← Nat.pow_add, Nat.sub_add_cancel hle, hvalue]
    have hexponent' : exponent = e - (b - c : Nat) := by omega
    rw [hshift, Nat.pow_zero, Nat.mul_one, Int.natCast_zero, Int.sub_zero, hmantissa, hexponent']
    exact roundWithAccuracy_of_exact s hm he (b - c)

/-! ## Bits -/

/-- A mantissa of 53 bits loses its leading bit, which the exponent implies. -/
theorem pack_of_isNormal (s : Sign) (hm : IsNormal m) {biased : Nat} (hbiased : e + 1075 = biased)
    (hlt : biased < 2047) :
    pack Format.binary64 (.finite s m e hm.pos) =
      packComponents Format.binary64 s (BitVec.ofNat 11 biased) (BitVec.ofNat 52 m) := by
  have hlog : m.log2 + 1 = Format.binary64.mantissaBits := by
    rw [(Nat.log2_eq_iff hm.pos.ne').mpr hm]
    rfl
  have hexponent : (e + Format.binary64.exponentBias +
      Format.binary64.mantissaBitsWithoutImplicit).toNat = biased := by
    change (e + 1023 + 52).toNat = biased
    omega
  have hfinite : ¬2 ^ Format.binary64.exponentBits ≤ biased + 1 := by
    change ¬2 ^ 11 ≤ biased + 1
    omega
  simp only [pack, hexponent, if_neg hfinite, if_pos hlog]

/-- The implied bit is put back. -/
theorem unpack_of_isNormal (s : Sign) (hm : IsNormal m) {biased : Nat} (hbiased : e + 1075 = biased)
    (hpos : 0 < biased) (hlt : biased < 2047) :
    unpack Format.binary64
        (packComponents Format.binary64 s (BitVec.ofNat 11 biased) (BitVec.ofNat 52 m)) =
      .finite s m e hm.pos := by
  have hnat : (BitVec.ofNat 11 biased).toNat = biased := by
    rw [BitVec.toNat_ofNat]
    omega
  have hnumber : BitVec.ofNat 11 biased ≠ -1#_ := by
    intro h
    have hones := congrArg BitVec.toNat h
    rw [hnat] at hones
    change biased = 2047 at hones
    omega
  have hnormal : BitVec.ofNat 11 biased ≠ 0#_ := by
    intro h
    have hzeros := congrArg BitVec.toNat h
    rw [hnat] at hzeros
    change biased = 0 at hzeros
    omega
  have hmantissa : (1#1 ++ BitVec.ofNat 52 m).toNat = m := by
    rw [BitVec.toNat_append, BitVec.toNat_ofNat, ← Nat.shiftLeft_add_eq_or_of_lt (by omega)]
    unfold IsNormal at hm
    change 2 ^ 52 + m % 2 ^ 52 = m
    omega
  have hexponent : (biased : Int) - (Format.binary64.exponentBias + 52) = e := by
    change (biased : Int) - (1023 + 52) = e
    omega
  simp only [unpack, unpackMantissa_packComponents, unpackExponent_packComponents,
    unpackSign_packComponents, Sign.ofBitVec_toBitVec, if_neg hnumber, if_neg hnormal, hnat,
    hmantissa]
  congr 1

/-! ## Integers -/

/-- The double is the integer: one of the zeros, or a mantissa of 53 bits in its place. -/
inductive IsInteger (x : Float) (n : Int) : Prop
  /-- Either zero. -/
  | zero (hx : IsZero x) (hn : n = 0)
  /-- A mantissa whose bits after the point are zeros. -/
  | normal {s : Sign} {m b : Nat} (hm : IsNormal m) (hb : b ≤ 54)
    (hx : view x = .finite s m (b - 53) hm.pos) (hn : s.apply (m * 2 ^ b : Nat) = n * 2 ^ 53)

/-- An integer up to `2^53` has a mantissa of 53 bits. -/
theorem exists_isNormal {k : Nat} (hpos : 0 < k) (hle : k ≤ 2 ^ 53) :
    ∃ m b, IsNormal m ∧ b ≤ 54 ∧ m * 2 ^ b = k * 2 ^ 53 := by
  rcases Nat.lt_or_ge k (2 ^ 53) with hlt | hge
  · have hlog : k.log2 ≤ 52 := Nat.le_of_lt_succ ((Nat.log2_lt hpos.ne').mpr hlt)
    have hlower : 2 ^ k.log2 ≤ k := Nat.log2_self_le hpos.ne'
    have hupper : k < 2 ^ (k.log2 + 1) := Nat.lt_log2_self
    refine ⟨k * 2 ^ (52 - k.log2), k.log2 + 1, ⟨?_, ?_⟩, by omega, ?_⟩
    · calc 2 ^ 52 = 2 ^ k.log2 * 2 ^ (52 - k.log2) := by rw [← Nat.pow_add]; congr 1; omega
        _ ≤ k * 2 ^ (52 - k.log2) := Nat.mul_le_mul_right _ hlower
    · calc k * 2 ^ (52 - k.log2) < 2 ^ (k.log2 + 1) * 2 ^ (52 - k.log2) :=
            Nat.mul_lt_mul_of_pos_right hupper (Nat.two_pow_pos _)
        _ = 2 ^ 53 := by rw [← Nat.pow_add]; congr 1; omega
    · rw [Nat.mul_assoc, ← Nat.pow_add]
      congr 2
      omega
  · obtain rfl : k = 2 ^ 53 := Nat.le_antisymm hle hge
    exact ⟨2 ^ 52, 54, ⟨by decide, by decide⟩, by decide, by decide⟩

/-- What is packed from a mantissa of 53 bits is the integer with this mantissa. -/
theorem isInteger_of_pack {n : Int} {b : Nat} (hm : IsNormal m) (hb : b ≤ 54)
    (hx : x.toBits.toBitVec = pack Format.binary64 (.finite s m (b - 53) hm.pos))
    (hn : s.apply (m * 2 ^ b : Nat) = n * 2 ^ 53) : IsInteger x n := by
  have hbiased : (b : Int) - 53 + 1075 = (b + 1022 : Nat) := by omega
  refine .normal hm hb ?_ hn
  rw [view, hx, pack_of_isNormal s hm hbiased (by omega),
    unpack_of_isNormal s hm hbiased (by omega) (by omega)]

theorem apply_mul (s : Sign) (a b : Int) : s.apply (a * b) = s.apply a * b := by
  cases s
  · exact (Int.neg_mul a b).symm
  · rfl

theorem apply_mul_apply (s t : Sign) (a b : Int) :
    (s * t).apply (a * b) = s.apply a * t.apply b := by
  cases s <;> cases t
  · exact (Int.neg_mul_neg a b).symm
  · exact (Int.neg_mul a b).symm
  · exact (Int.mul_neg a b).symm
  · rfl

theorem natAbs_apply (s : Sign) (n : Int) : (s.apply n).natAbs = n.natAbs := by
  cases s
  · exact Int.natAbs_neg n
  · rfl

theorem apply_apply (s : Sign) (n : Int) : s.apply (s.apply n) = n := by
  cases s
  · exact Int.neg_neg n
  · rfl

/-- An integer is its magnitude with a sign. -/
theorem exists_apply (n : Int) : ∃ s : Sign, n = s.apply n.natAbs := by
  rcases n.natAbs_eq with hn | hn
  · exact ⟨.positive, hn⟩
  · exact ⟨.negative, hn⟩

/-- A positive magnitude with a sign is rounded with this sign. -/
theorem normalize_apply (s t : Sign) {k : Nat} (hpos : 0 < k) (e : Int) :
    UnpackedFloat.normalize Format.binary64 (s.apply k) e t =
      UnpackedFloat.round Format.binary64 s k e := by
  cases s with
  | positive =>
    have hcompare : compare (k : Int) 0 = .gt := Int.compare_eq_gt.mpr (by omega)
    simp only [UnpackedFloat.normalize, Sign.apply, hcompare, Int.toNat_natCast]
  | negative =>
    have hcompare : compare (-(k : Int)) 0 = .lt := Int.compare_eq_lt.mpr (by omega)
    simp only [UnpackedFloat.normalize, Sign.apply, hcompare, Int.neg_neg, Int.toNat_natCast]

/-- A rounded integer is this integer. -/
theorem isInteger_of_round {k c d mantissa : Nat} {exponent : Int} (hpos : 0 < k)
    (hle : k ≤ 2 ^ 53)
    (hx : x.toBits.toBitVec = pack Format.binary64
      (UnpackedFloat.round Format.binary64 s mantissa exponent))
    (hvalue : mantissa * 2 ^ c = k * 2 ^ d) (hexponent : exponent = c - d) :
    IsInteger x (s.apply k) := by
  obtain ⟨m, b, hm, hb, hk⟩ := exists_isNormal hpos hle
  have hnormal : mantissa * 2 ^ (c + 53) = m * 2 ^ (b + d) := by
    rw [Nat.pow_add, ← Nat.mul_assoc, hvalue, Nat.pow_add, ← Nat.mul_assoc, hk]
    exact Nat.mul_right_comm k (2 ^ d) (2 ^ 53)
  rw [round_of_exact s hm (e := b - 53) (by omega) hnormal (by omega)] at hx
  refine isInteger_of_pack hm hb hx ?_
  rw [hk, Int.natCast_mul, apply_mul]
  rfl

/-- A normalized integer is this integer. -/
theorem isInteger_of_normalize {n mantissa exponent : Int} {c d : Nat} (hle : n.natAbs ≤ 2 ^ 53)
    (hx : x.toBits.toBitVec = pack Format.binary64
      (UnpackedFloat.normalize Format.binary64 mantissa exponent .positive))
    (hvalue : mantissa * 2 ^ c = n * 2 ^ d) (hexponent : exponent = c - d) : IsInteger x n := by
  have hc : (0 : Int) < 2 ^ c := Int.pow_pos (by decide)
  obtain ⟨s, hs⟩ := exists_apply n
  by_cases hzero : n = 0
  · rw [hzero, Int.zero_mul] at hvalue
    obtain rfl : mantissa = 0 := (Int.mul_eq_zero.mp hvalue).resolve_right hc.ne'
    exact .zero (isZero_of_pack hx) hzero
  · -- the mantissa has the sign of the integer
    have hflip : s.apply mantissa * 2 ^ c = (n.natAbs * 2 ^ d : Nat) := by
      rw [← apply_mul, hvalue, hs, apply_mul, apply_apply, ← hs]
      rfl
    obtain ⟨w, hw⟩ : ∃ w : Nat, s.apply mantissa = w := by
      refine Int.eq_ofNat_of_zero_le (Int.le_of_mul_le_mul_right ?_ hc)
      rw [Int.zero_mul, hflip]
      exact Int.natCast_nonneg _
    have hnat : w * 2 ^ c = n.natAbs * 2 ^ d := by
      rw [hw] at hflip
      exact_mod_cast hflip
    have hwpos : 0 < w := by
      refine Nat.pos_of_ne_zero fun h => ?_
      rw [h, Nat.zero_mul] at hnat
      exact (Nat.mul_pos (Int.natAbs_pos.mpr hzero) (Nat.two_pow_pos d)).ne hnat
    rw [← apply_apply s mantissa, hw, normalize_apply s _ hwpos] at hx
    rw [hs]
    exact isInteger_of_round (Int.natAbs_pos.mpr hzero) hle hx hnat hexponent

/-! ## Arithmetic -/

variable {n k : Int}

theorem IsInteger.eq_zero (h : IsInteger x n) (hx : IsZero x) : n = 0 := by
  obtain ⟨t, ht⟩ := hx
  cases h with
  | zero _ hn => exact hn
  | normal _ _ hview _ => exact UnpackedFloat.noConfusion (ht.symm.trans hview)

/-- The double of the negated integer is the negation. -/
theorem IsInteger.neg (h : IsInteger x n) : IsInteger (-x) (-n) := by
  cases h with
  | zero hx hn =>
    obtain ⟨s, hs⟩ := hx
    exact .zero ⟨-s, by rw [view_neg, hs]; rfl⟩ (by rw [hn, Int.neg_zero])
  | @normal s m b hm hb hx hn =>
    refine .normal (s := -s) hm hb (by rw [view_neg, hx]; rfl) ?_
    rw [Int.neg_mul, ← hn]
    cases s
    · exact (Int.neg_neg _).symm
    · rfl

/-- A mantissa is carried to a smaller exponent without a change of its value. -/
theorem apply_decreaseExponent {b c : Nat} (hle : c ≤ b)
    (hn : s.apply (m * 2 ^ b : Nat) = n * 2 ^ 53) :
    s.apply (decreaseExponent m (b - 53) (c - 53)).1 * 2 ^ c = n * 2 ^ 53 := by
  have hshift : ((b : Int) - 53 - (c - 53)).toNat = b - c := by omega
  have hpow : m * 2 ^ (b - c) * 2 ^ c = m * 2 ^ b := by
    rw [Nat.mul_assoc, ← Nat.pow_add, Nat.sub_add_cancel hle]
  rw [← hn, ← hpow, decreaseExponent, hshift, Nat.shiftLeft_eq, Int.natCast_mul _ (2 ^ c),
    apply_mul]
  rfl

/-- A sum up to `2^53` is not rounded. -/
theorem IsInteger.add (hx : IsInteger x n) (hy : IsInteger y k) (hle : (n + k).natAbs ≤ 2 ^ 53) :
    IsInteger (x + y) (n + k) := by
  cases hx with
  | zero hx hn =>
    rw [hn, Int.zero_add]
    rcases hx.add y with heq | ⟨hsum, hzero⟩
    · rwa [heq]
    · exact .zero hsum (hy.eq_zero hzero)
  | @normal s m b hm hb hx hn =>
    have hbits := toBits_add x y
    cases hy with
    | zero hy hk =>
      obtain ⟨t, ht⟩ := hy
      rw [hx, ht] at hbits
      rw [hk, Int.add_zero]
      exact isInteger_of_pack hm hb hbits hn
    | @normal t m' b' hm' hb' hy hk =>
      have hmin : min ((b : Int) - 53) (b' - 53) = (min b b' : Nat) - 53 := by omega
      rw [hx, hy] at hbits
      simp only [Float.Model.UnpackedFloat.add, hmin] at hbits
      refine isInteger_of_normalize (d := 53) hle hbits ?_ rfl
      rw [Int.add_mul, Int.add_mul, apply_decreaseExponent (Nat.min_le_left b b') hn,
        apply_decreaseExponent (Nat.min_le_right b b') hk]

/-- A difference up to `2^53` is not rounded. -/
theorem IsInteger.sub (hx : IsInteger x n) (hy : IsInteger y k) (hle : (n - k).natAbs ≤ 2 ^ 53) :
    IsInteger (x - y) (n - k) := by
  rw [sub_eq_add_neg, Int.sub_eq_add_neg]
  exact hx.add hy.neg (by rwa [← Int.sub_eq_add_neg])

/-- The product of two mantissas has zeros after its first 53 bits if it is a small integer. -/
theorem exists_roundWithAccuracy_mul (s : Sign) {m' b b' k : Nat} (hm : IsNormal m)
    (hm' : IsNormal m') (hle : k ≤ 2 ^ 53)
    (hvalue : m * 2 ^ b * (m' * 2 ^ b') = k * 2 ^ 53 * 2 ^ 53) :
    ∃ (m'' b'' : Nat) (hm'' : IsNormal m''), b'' ≤ 54 ∧ m'' * 2 ^ b'' = k * 2 ^ 53 ∧
      roundWithAccuracy Format.binary64 s (m * m') (b - 53 + (b' - 53)) .exact =
        .finite s m'' (b'' - 53) hm''.pos := by
  have hvalue' : m * m' * 2 ^ (b + b') = k * 2 ^ 53 * 2 ^ 53 := by
    rw [← hvalue, Nat.pow_add]
    ring
  have hpos : 0 < k := by
    refine Nat.pos_of_ne_zero fun hzero => ?_
    rw [hzero, Nat.zero_mul] at hvalue'
    exact (Nat.mul_pos (Nat.mul_pos hm.pos hm'.pos) (Nat.two_pow_pos _)).ne' hvalue'
  obtain ⟨m'', b'', hm'', hb'', hk⟩ := exists_isNormal hpos hle
  rw [← hk, Nat.mul_assoc m'', ← Nat.pow_add] at hvalue'
  -- the product has 105 bits or more, so the exponent grows
  have hexponent : b + b' < b'' + 53 := by
    have hlower : 2 ^ (52 + 52 + (b + b')) ≤ m * m' * 2 ^ (b + b') := by
      rw [Nat.pow_add 2 (52 + 52), Nat.pow_add 2 52 52]
      exact Nat.mul_le_mul_right _ (Nat.mul_le_mul hm.1 hm'.1)
    have hupper : m'' * 2 ^ (b'' + 53) < 2 ^ (53 + (b'' + 53)) := by
      rw [Nat.pow_add 2 53]
      exact Nat.mul_lt_mul_of_pos_right hm''.2 (Nat.two_pow_pos _)
    rw [hvalue'] at hlower
    have hpow := (Nat.pow_lt_pow_iff_right (by decide)).mp (Nat.lt_of_le_of_lt hlower hupper)
    omega
  have hmantissa : m * m' = m'' * 2 ^ (b'' + 53 - (b + b')) := by
    apply Nat.eq_of_mul_eq_mul_right (Nat.two_pow_pos (b + b'))
    rw [hvalue', Nat.mul_assoc, ← Nat.pow_add, Nat.sub_add_cancel hexponent.le]
  have hplace : (b : Int) - 53 + (b' - 53) = b'' - 53 - (b'' + 53 - (b + b') : Nat) := by omega
  refine ⟨m'', b'', hm'', hb'', hk, ?_⟩
  rw [hmantissa, hplace]
  exact roundWithAccuracy_of_exact s hm'' (by omega) _

/-- A product up to `2^53` is not rounded. -/
theorem IsInteger.mul (hx : IsInteger x n) (hy : IsInteger y k) (hle : (n * k).natAbs ≤ 2 ^ 53) :
    IsInteger (x * y) (n * k) := by
  have hbits := toBits_mul x y
  cases hx with
  | zero hx hn =>
    obtain ⟨t, ht⟩ := hx
    rw [hn, Int.zero_mul]
    cases hy with
    | zero hy hk =>
      obtain ⟨u, hu⟩ := hy
      rw [ht, hu] at hbits
      exact .zero (isZero_of_pack hbits) rfl
    | normal _ _ hy _ =>
      rw [ht, hy] at hbits
      exact .zero (isZero_of_pack hbits) rfl
  | @normal s m b hm hb hx hn =>
    cases hy with
    | zero hy hk =>
      obtain ⟨u, hu⟩ := hy
      rw [hx, hu] at hbits
      rw [hk, Int.mul_zero]
      exact .zero (isZero_of_pack hbits) rfl
    | @normal t m' b' hm' hb' hy hk =>
      rw [hx, hy] at hbits
      simp only [Float.Model.UnpackedFloat.mul] at hbits
      have hproduct :
          (s * t).apply (m * 2 ^ b * (m' * 2 ^ b') : Nat) = n * k * 2 ^ 53 * 2 ^ 53 := by
        rw [Int.natCast_mul, apply_mul_apply, hn, hk]
        ring
      have habs : m * 2 ^ b * (m' * 2 ^ b') = (n * k).natAbs * 2 ^ 53 * 2 ^ 53 := by
        have h := congrArg Int.natAbs hproduct
        rwa [natAbs_apply, Int.natAbs_mul, Int.natAbs_mul] at h
      obtain ⟨m'', b'', hm'', hb'', hmantissa, hround⟩ :=
        exists_roundWithAccuracy_mul (s * t) hm hm' hle habs
      rw [hround] at hbits
      refine isInteger_of_pack hm'' hb'' hbits ?_
      apply Int.eq_of_mul_eq_mul_right (show (2 : Int) ^ 53 ≠ 0 by decide)
      rw [← hproduct, habs, hmantissa, Int.natCast_mul (_ * _) (2 ^ 53), apply_mul]
      rfl

/-! ## From integers and to integers -/

/-- The bits of an integer are its mantissa and the exponent, into which the leading bit carries. -/
theorem toNat_packComponents_of_isNormal (s : Sign) (hm : IsNormal m) {b : Nat} (hb : b ≤ 54) :
    (packComponents Format.binary64 s (BitVec.ofNat 11 (b + 1022)) (BitVec.ofNat 52 m)).toNat =
      s.toBitVec.toNat * 2 ^ 63 + ((b + 1021) * 2 ^ 52 + m) := by
  have hexponent : (BitVec.ofNat 11 (b + 1022)).toNat = b + 1022 := by
    rw [BitVec.toNat_ofNat]
    omega
  have hmantissa : (BitVec.ofNat 52 m).toNat + 2 ^ 52 = m := by
    rw [BitVec.toNat_ofNat]
    unfold IsNormal at hm
    omega
  rw [toNat_packComponents, hexponent]
  omega

/-- The units of an integer. -/
theorem unitsOfBits_of_isNormal (hm : IsNormal m) {b k : Nat} (hk : m * 2 ^ b = k * 2 ^ 53) :
    unitsOfBits ((b + 1021) * 2 ^ 52 + m) = k * one := by
  obtain ⟨places, hplaces, hone⟩ := exists_one_eq
  obtain ⟨rest, hrest, rfl⟩ : ∃ rest, rest = 1021 ∧ places = 53 + rest := ⟨1021, rfl, hplaces⟩
  rw [← hrest]
  calc unitsOfBits ((b + rest) * 2 ^ 52 + m)
      = m * 2 ^ (b + rest) := unitsOfBits_of_significand hm.2.le (.inr hm.1)
    _ = m * 2 ^ b * 2 ^ rest := by rw [Nat.pow_add, Nat.mul_assoc]
    _ = k * 2 ^ (53 + rest) := by rw [hk, Nat.pow_add, Nat.mul_assoc]
    _ = k * one := by rw [hone]

/-- The double nearest to an integer up to `2^53` is the integer. -/
theorem isInteger_toFloat {k : Nat} (hle : k ≤ 2 ^ 53) : IsInteger (Decimal.toFloat ⟨k, 0⟩) k := by
  rcases Nat.eq_zero_or_pos k with rfl | hpos
  · exact .zero isZero_toFloat rfl
  · obtain ⟨m, b, hm, hb, hk⟩ := exists_isNormal hpos hle
    have hlt := hm.2
    have hunits := unitsOfBits_of_isNormal hm hk
    have hbits : (⟨k, 0⟩ : Decimal).bits = (b + 1021) * 2 ^ 52 + m := by
      apply nearestBits_of_exact Nat.one_pos
      · rw [infinityBits]
        omega
      · rw [hunits, Nat.mul_one]
    have hpacked : (UInt64.ofNat ((b + 1021) * 2 ^ 52 + m)).toBitVec =
        packComponents Format.binary64 .positive (BitVec.ofNat 11 (b + 1022))
          (BitVec.ofNat 52 m) := by
      rw [← BitVec.toNat_inj, toNat_packComponents_of_isNormal _ hm hb, UInt64.toNat_toBitVec,
        UInt64.toNat_ofNat']
      simp only [Sign.toBitVec, BitVec.toNat_ofNat]
      omega
    have hbiased : (b : Int) - 53 + 1075 = (b + 1022 : Nat) := by omega
    refine isInteger_of_pack (s := .positive) hm hb ?_ ?_
    · rw [Decimal.toFloat_eq_ofBits, hbits, toBits_ofBits, hpacked,
        unpack_of_isNormal .positive hm hbiased (by omega) (by omega)]
    · rw [hk]
      rfl

/-- The units of an integer, and its sign unless it is zero. -/
theorem IsInteger.eq_finite (h : IsInteger x n) : ∃ negative,
    ofFloat x = .finite negative (n.natAbs * one) ∧
      n = if negative then -(n.natAbs : Int) else n.natAbs := by
  cases h with
  | zero hx hn =>
    obtain ⟨negative, hfinite⟩ := hx.eq_finite
    refine ⟨negative, ?_, ?_⟩
    · rw [hfinite, hn, Int.natAbs_zero, Nat.zero_mul]
    · rw [hn]
      cases negative <;> rfl
  | @normal s m b hm hb hx hn =>
    have habs : m * 2 ^ b = n.natAbs * 2 ^ 53 := by
      have h := congrArg Int.natAbs hn
      rwa [natAbs_apply, Int.natAbs_mul] at h
    have hsign : n = s.apply n.natAbs := by
      apply Int.eq_of_mul_eq_mul_right (show (2 : Int) ^ 53 ≠ 0 by decide)
      rw [← hn, habs, Int.natCast_mul, apply_mul]
      rfl
    have hlt := hm.2
    have hbiased : (b : Int) - 53 + 1075 = (b + 1022 : Nat) := by omega
    have hbits : x.toBits.toNat = s.toBitVec.toNat * 2 ^ 63 + ((b + 1021) * 2 ^ 52 + m) := by
      rw [← UInt64.toNat_toBitVec, ← pack_view, hx, pack_of_isNormal s hm hbiased (by omega),
        toNat_packComponents_of_isNormal s hm hb]
    have hfinite (negative : Bool) := ofBits_eq_finite negative
      (show (b + 1021) * 2 ^ 52 + m < infinityBits by rw [infinityBits]; omega)
    rw [ofFloat, hbits, ← unitsOfBits_of_isNormal hm habs]
    cases s with
    | negative => exact ⟨true, hfinite true, hsign⟩
    | positive => exact ⟨false, hfinite false, hsign⟩

/-- An integer is cut to itself. -/
theorem IsInteger.truncate_eq (h : IsInteger x n) (hle : n.natAbs ≤ 2 ^ 53) :
    (ofFloat x).truncate = Int64.ofInt n := by
  obtain ⟨negative, hfinite, hn⟩ := h.eq_finite
  have hgreatest : n.natAbs ≤ greatestWhole negative := by
    unfold greatestWhole
    split <;> omega
  have htruncate := toInt_truncate negative (n.natAbs * one)
  rw [Nat.mul_div_cancel _ one_pos, Nat.min_eq_left hgreatest] at htruncate
  rw [hfinite, ← Int64.toInt_inj, htruncate, Int64.toInt_ofInt_of_le (by omega) (by omega)]
  exact hn.symm

end Calculator.Double
