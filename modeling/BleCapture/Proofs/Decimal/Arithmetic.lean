import BleCapture.Proofs.Decimal.Rounding

/-!
# Arithmetic of doubles

Sums, differences, products and quotients of finite doubles stand for the exact
results, as long as these stay far from the greatest double.
-/

namespace BleCapture.Decimal

open Float.Model
open UnpackedFloat hiding unpack pack neg add sub mul div round normalize

namespace Binary64

theorem unpacked_of_zero {x : Binary64} (h : x.significand = 0) :
    x.unpacked = .zero (signOf x.negative) :=
  dif_pos h

theorem unpacked_of_pos {x : Binary64} (h : x.significand ≠ 0) :
    x.unpacked = .finite (signOf x.negative) x.significand x.exponent (Nat.pos_of_ne_zero h) :=
  dif_neg h

/-- A zero of either sign. -/
def zero (negative : Bool) : Binary64 := ⟨negative, 0, -1074⟩

theorem canonical_zero (negative : Bool) : (zero negative).Canonical :=
  ⟨by show 0 < 2 ^ 53; decide, Int.le_refl _, by show (-1074 : Int) ≤ 971; decide, .inr rfl⟩

theorem value_zero (negative : Bool) : (zero negative).value = 0 := value_of_zero rfl

/-- The value is not changed by writing the number with a lesser exponent. -/
theorem value_decreaseExponent (x : Binary64) {t : ℤ} (ht : t ≤ x.exponent) :
    (((signOf x.negative).apply (decreaseExponent x.significand x.exponent t).1 : ℤ) * 2 ^ t : ℚ) =
      x.value := by
  have hmagnitude : ((x.significand <<< (x.exponent - t).toNat : ℕ) * 2 ^ t : ℚ) = x.magnitude := by
    have hsum : x.exponent = ((x.exponent - t).toNat : ℤ) + t := by omega
    rw [magnitude, Nat.shiftLeft_eq]
    conv_rhs => rw [hsum, zpow_add₀ two_ne_zero, zpow_natCast]
    push_cast
    rw [mul_assoc]
  rw [value, ← hmagnitude]
  rcases x.negative with _ | _
  · rfl
  · show ((-(x.significand <<< (x.exponent - t).toNat : ℕ) : ℤ) * 2 ^ t : ℚ) = _
    push_cast
    rw [neg_mul]
    rfl

-- ---------------------------------------------------------------------------
-- Sums and differences
-- ---------------------------------------------------------------------------

theorem exists_add {x y : Binary64} (hx : x.Canonical) (hy : y.Canonical)
    (hsmall : |x.value + y.value| ≤ 2 ^ (1000 : ℤ)) :
    ∃ z : Binary64, z.Canonical ∧
      UnpackedFloat.add Format.binary64 x.unpacked y.unpacked = z.unpacked ∧
      RoundsTo (x.value + y.value) z.value := by
  by_cases hxz : x.significand = 0
  · rw [value_of_zero hxz, zero_add, unpacked_of_zero hxz]
    by_cases hyz : y.significand = 0
    · refine ⟨zero (x.negative && y.negative), canonical_zero _, ?_, ?_⟩
      · rw [unpacked_of_zero hyz]
        cases x.negative <;> cases y.negative <;> rfl
      · rw [value_of_zero hyz, value_zero]
        exact .of_representable .zero
    · refine ⟨y, hy, ?_, .of_representable hy.representable⟩
      rw [unpacked_of_pos hyz]
      rfl
  · rw [unpacked_of_pos hxz]
    by_cases hyz : y.significand = 0
    · rw [value_of_zero hyz, add_zero, unpacked_of_zero hyz]
      exact ⟨x, hx, (unpacked_of_pos hxz).symm, .of_representable hx.representable⟩
    · rw [unpacked_of_pos hyz]
      rw [← x.value_decreaseExponent (min_le_left x.exponent y.exponent),
        ← y.value_decreaseExponent (min_le_right x.exponent y.exponent), ← add_mul,
        ← Int.cast_add] at hsmall ⊢
      obtain ⟨z, hz, -, heq, hrounds⟩ := exists_normalize hsmall
      exact ⟨z, hz, heq, hrounds⟩

theorem apply_neg (s : Sign) (n : ℤ) : (-s).apply n = -s.apply n := by
  cases s
  · exact (Int.neg_neg n).symm
  · rfl

/-- A difference is the sum with the opposite number. -/
theorem sub_eq_add (a b : UnpackedFloat) :
    UnpackedFloat.sub Format.binary64 a b = UnpackedFloat.add Format.binary64 a b.neg := by
  cases a with
  | finite s m e hm =>
    cases b with
    | finite t n f hn =>
      have hmantissa : ∀ j k : ℕ, s.apply j - t.apply k = s.apply j + (-t).apply k := by
        intro j k
        rw [apply_neg, sub_eq_add_neg]
      exact congrArg (UnpackedFloat.normalize Format.binary64 · (min e f) .positive)
        (hmantissa _ _)
    | _ => rfl
  | _ => cases b <;> rfl

theorem exists_sub {x y : Binary64} (hx : x.Canonical) (hy : y.Canonical)
    (hsmall : |x.value - y.value| ≤ 2 ^ (1000 : ℤ)) :
    ∃ z : Binary64, z.Canonical ∧
      UnpackedFloat.sub Format.binary64 x.unpacked y.unpacked = z.unpacked ∧
      RoundsTo (x.value - y.value) z.value := by
  rw [sub_eq_add, ← unpacked_neg]
  rw [sub_eq_add_neg, ← value_neg] at hsmall ⊢
  exact exists_add hx hy.neg hsmall

-- ---------------------------------------------------------------------------
-- Products and quotients
-- ---------------------------------------------------------------------------

theorem signOf_mul (a b : Bool) : signOf a * signOf b = signOf (a ^^ b) := by
  cases a <;> cases b <;> rfl

theorem signOf_div (a b : Bool) : signOf a / signOf b = signOf (a ^^ b) := by
  cases a <;> cases b <;> rfl

theorem enoughBits_mul {x y : Binary64} (hx : x.Canonical) (hy : y.Canonical)
    (hxz : x.significand ≠ 0) (hyz : y.significand ≠ 0) :
    EnoughBits (x.significand * y.significand) (x.exponent + y.exponent) := by
  have hpos := Nat.mul_ne_zero hxz hyz
  rcases hx.normal_or_least with hbig | hxe
  · refine .inl ((Nat.le_log2 hpos).mpr ?_)
    exact hbig.trans (Nat.le_mul_of_pos_right _ (Nat.pos_of_ne_zero hyz))
  · rcases hy.normal_or_least with hbig | hye
    · refine .inl ((Nat.le_log2 hpos).mpr ?_)
      exact hbig.trans (Nat.le_mul_of_pos_left _ (Nat.pos_of_ne_zero hxz))
    · refine .inr ?_
      rw [hxe, hye]
      decide

theorem exists_mul {x y : Binary64} (hx : x.Canonical) (hy : y.Canonical)
    (hsmall : x.magnitude * y.magnitude ≤ 2 ^ (1000 : ℤ)) :
    ∃ z : Binary64, z.Canonical ∧ z.negative = (x.negative ^^ y.negative) ∧
      UnpackedFloat.mul Format.binary64 x.unpacked y.unpacked = z.unpacked ∧
      RoundsTo (x.magnitude * y.magnitude) z.magnitude := by
  by_cases hz : x.significand = 0 ∨ y.significand = 0
  · refine ⟨zero (x.negative ^^ y.negative), canonical_zero _, rfl, ?_, ?_⟩
    · have hzero : UnpackedFloat.mul Format.binary64 x.unpacked y.unpacked =
          .zero (signOf x.negative * signOf y.negative) := by
        by_cases hxz : x.significand = 0 <;> by_cases hyz : y.significand = 0
        · rw [unpacked_of_zero hxz, unpacked_of_zero hyz]
          rfl
        · rw [unpacked_of_zero hxz, unpacked_of_pos hyz]
          rfl
        · rw [unpacked_of_pos hxz, unpacked_of_zero hyz]
          rfl
        · exact absurd hz (not_or.mpr ⟨hxz, hyz⟩)
      rw [hzero, signOf_mul]
      rfl
    · have hvalue : x.magnitude * y.magnitude = 0 := by
        rw [mul_eq_zero, ← abs_value x, ← abs_value y, abs_eq_zero, abs_eq_zero]
        exact hz.imp value_of_zero value_of_zero
      rw [hvalue, ← abs_value, value_zero, abs_zero]
      exact .of_representable .zero
  · obtain ⟨hxz, hyz⟩ := not_or.mp hz
    have hvalue : ((x.significand * y.significand : ℕ) * 2 ^ (x.exponent + y.exponent) : ℚ) =
        x.magnitude * y.magnitude := by
      rw [magnitude, magnitude, zpow_add₀ two_ne_zero, Nat.cast_mul, mul_mul_mul_comm]
    obtain ⟨significand, exponent, hrounds, hround⟩ :=
      exists_roundWithAccuracy (enoughBits_mul hx hy hxz hyz) (holds_exact _) (hvalue ▸ hsmall)
    obtain ⟨hcanonical, -, heq⟩ := hround (x.negative ^^ y.negative)
    refine ⟨_, hcanonical, rfl, ?_, hvalue ▸ hrounds⟩
    rw [unpacked_of_pos hxz, unpacked_of_pos hyz, ← heq, ← signOf_mul]
    rfl

/-- The dividend is extended until the quotient has enough bits. -/
theorem enoughBits_div {m n : ℕ} {e f t : ℤ} (hm : m ≠ 0) (hn : n ≠ 0)
    (ht : t = min (e - f)
      (Format.binary64.targetExponent (totalExponent m e - totalExponent n f))) :
    EnoughBits ((m <<< (e - f - t).toNat) / n) t := by
  have htarget : Format.binary64.targetExponent (totalExponent m e - totalExponent n f) =
      max (m.log2 + 1 + e - (n.log2 + 1 + f) - 53) (-1074) := rfl
  rw [htarget] at ht
  rcases le_or_gt t (-1074) with hleast | hmore
  · exact .inr hleast
  · have hwhole : 2 ^ 52 ≤ (m <<< (e - f - t).toNat) / n := by
      rw [Nat.le_div_iff_mul_le (Nat.pos_of_ne_zero hn), Nat.shiftLeft_eq]
      calc 2 ^ 52 * n ≤ 2 ^ 52 * 2 ^ (n.log2 + 1) := Nat.mul_le_mul_left _ Nat.lt_log2_self.le
        _ = 2 ^ (52 + (n.log2 + 1)) := (Nat.pow_add ..).symm
        _ ≤ 2 ^ (m.log2 + (e - f - t).toNat) := Nat.pow_le_pow_right two_pos (by omega)
        _ = 2 ^ m.log2 * 2 ^ (e - f - t).toNat := Nat.pow_add ..
        _ ≤ m * 2 ^ (e - f - t).toNat := Nat.mul_le_mul_right _ (Nat.log2_self_le hm)
    exact .inl ((Nat.le_log2 (Nat.ne_of_gt (Nat.lt_of_lt_of_le (by decide) hwhole))).mpr hwhole)

theorem exists_div {x y : Binary64} (hyz : y.significand ≠ 0)
    (hsmall : x.magnitude / y.magnitude ≤ 2 ^ (1000 : ℤ)) :
    ∃ z : Binary64, z.Canonical ∧ z.negative = (x.negative ^^ y.negative) ∧
      UnpackedFloat.div Format.binary64 x.unpacked y.unpacked = z.unpacked ∧
      RoundsTo (x.magnitude / y.magnitude) z.magnitude ∧ z.Covers (x.magnitude / y.magnitude) := by
  rw [unpacked_of_pos hyz]
  by_cases hxz : x.significand = 0
  · have hmagnitude : x.magnitude = 0 := by rw [← abs_value, value_of_zero hxz, abs_zero]
    refine ⟨zero (x.negative ^^ y.negative), canonical_zero _, rfl, ?_, ?_, ?_⟩
    · rw [unpacked_of_zero hxz]
      show UnpackedFloat.zero (signOf x.negative / signOf y.negative) = _
      rw [signOf_div]
      rfl
    · rw [hmagnitude, zero_div, ← abs_value, value_zero, abs_zero]
      exact .of_representable .zero
    · rw [hmagnitude, zero_div, Covers]
      exact ⟨(zero_mul _).le, mul_nonneg (Nat.cast_nonneg _) (two_zpow_pos _).le⟩
  · obtain ⟨t, ht⟩ : ∃ t, t = min (x.exponent - y.exponent) (Format.binary64.targetExponent
        (totalExponent x.significand x.exponent - totalExponent y.significand y.exponent)) :=
      ⟨_, rfl⟩
    have hholds := holds_fraction (x.significand <<< (x.exponent - y.exponent - t).toNat)
      (Nat.pos_of_ne_zero hyz)
    have hvalue : ((x.significand <<< (x.exponent - y.exponent - t).toNat : ℕ) / y.significand *
        2 ^ t : ℚ) = x.magnitude / y.magnitude := by
      have hsum : x.exponent - y.exponent = ((x.exponent - y.exponent - t).toNat : ℤ) + t := by
        omega
      rw [magnitude, magnitude, mul_div_mul_comm, ← zpow_sub₀ two_ne_zero, Nat.shiftLeft_eq]
      conv_rhs => rw [hsum, zpow_add₀ two_ne_zero, zpow_natCast]
      push_cast
      ring
    obtain ⟨significand, exponent, hrounds, hround⟩ :=
      exists_roundWithAccuracy (enoughBits_div hxz hyz ht) hholds (hvalue ▸ hsmall)
    obtain ⟨hcanonical, hcovers, heq⟩ := hround (x.negative ^^ y.negative)
    refine ⟨_, hcanonical, rfl, ?_, hvalue ▸ hrounds, hvalue ▸ hcovers⟩
    rw [unpacked_of_pos hxz, ← heq, ← signOf_div, ht]
    rfl

theorem roundWithAccuracy_neg (s : Sign) (m : ℕ) (e : ℤ) (a : Accuracy) :
    roundWithAccuracy Format.binary64 (-s) m e a =
      (roundWithAccuracy Format.binary64 s m e a).neg := by
  -- Only the sign of the result depends on the sign.
  obtain ⟨n, f, hround⟩ : ∃ (n : ℕ) (f : ℤ), ∀ t, roundWithAccuracy Format.binary64 t m e a =
      if h : n = 0 then .zero t else .finite t n f (Nat.pos_of_ne_zero h) := by
    let first := shiftToTargetExponent Format.binary64 m e a
    let last := shiftToTargetExponent Format.binary64 first.1.roundedMantissa first.2 .exact
    exact ⟨last.1.mantissa, last.2, fun _ => rfl⟩
  rw [hround, hround]
  by_cases h : n = 0
  · rw [dif_pos h, dif_pos h]
    rfl
  · rw [dif_neg h, dif_neg h]
    rfl

theorem neg_div_sign (s t : Sign) : -s / t = -(s / t) := by
  cases s <;> cases t <;> rfl

theorem neg_div_unpacked (a b : UnpackedFloat) :
    UnpackedFloat.div Format.binary64 a.neg b = (UnpackedFloat.div Format.binary64 a b).neg := by
  cases a with
  | notANumber => cases b <;> rfl
  | infinity s =>
    cases b with
    | finite t => exact congrArg UnpackedFloat.infinity (neg_div_sign s t)
    | zero t => exact congrArg UnpackedFloat.infinity (neg_div_sign s t)
    | _ => rfl
  | zero s =>
    cases b with
    | finite t => exact congrArg UnpackedFloat.zero (neg_div_sign s t)
    | infinity t => exact congrArg UnpackedFloat.zero (neg_div_sign s t)
    | _ => rfl
  | finite s m e hm =>
    cases b with
    | finite t n f hn =>
      let quotient := divCore Format.binary64 m e n f
      show roundWithAccuracy _ (-s / t) quotient.1 quotient.2.1 quotient.2.2 =
        (roundWithAccuracy _ (s / t) quotient.1 quotient.2.1 quotient.2.2).neg
      rw [neg_div_sign, roundWithAccuracy_neg]
    | zero t => exact congrArg UnpackedFloat.infinity (neg_div_sign s t)
    | infinity t => exact congrArg UnpackedFloat.zero (neg_div_sign s t)
    | notANumber => rfl

-- ---------------------------------------------------------------------------
-- Doubles
-- ---------------------------------------------------------------------------

section
variable {f g : Float} {x y : Binary64}

theorem canonical_of_ofFloat? (hf : ofFloat? f = some x) : x.Canonical :=
  (unpack_of_ofFloat? hf).2

theorem ofFloat?_neg (hf : ofFloat? f = some x) : ofFloat? (-f) = some x.neg := by
  obtain ⟨hfx, hx⟩ := unpack_of_ofFloat? hf
  show ofFloat? (.ofModel (.pack f.toModel.unpack.neg)) = _
  rw [hfx, ← unpacked_neg]
  exact ofFloat?_pack hx.neg

/-- An operation on doubles works on their parts. -/
theorem ofFloat?_operation (op : UnpackedFloat → UnpackedFloat → UnpackedFloat) {z : Binary64}
    (hf : ofFloat? f = some x) (hg : ofFloat? g = some y) (hz : z.Canonical)
    (heq : op x.unpacked y.unpacked = z.unpacked) :
    ofFloat? (.ofModel (.pack (op f.toModel.unpack g.toModel.unpack))) = some z := by
  rw [(unpack_of_ofFloat? hf).1, (unpack_of_ofFloat? hg).1, heq]
  exact ofFloat?_pack hz

theorem ofFloat?_add (hf : ofFloat? f = some x) (hg : ofFloat? g = some y)
    (hsmall : |x.value + y.value| ≤ 2 ^ (1000 : ℤ)) :
    ∃ z, ofFloat? (f + g) = some z ∧ RoundsTo (x.value + y.value) z.value := by
  obtain ⟨z, hz, heq, hrounds⟩ :=
    exists_add (canonical_of_ofFloat? hf) (canonical_of_ofFloat? hg) hsmall
  exact ⟨z, ofFloat?_operation (UnpackedFloat.add _) hf hg hz heq, hrounds⟩

theorem ofFloat?_sub (hf : ofFloat? f = some x) (hg : ofFloat? g = some y)
    (hsmall : |x.value - y.value| ≤ 2 ^ (1000 : ℤ)) :
    ∃ z, ofFloat? (f - g) = some z ∧ RoundsTo (x.value - y.value) z.value := by
  obtain ⟨z, hz, heq, hrounds⟩ :=
    exists_sub (canonical_of_ofFloat? hf) (canonical_of_ofFloat? hg) hsmall
  exact ⟨z, ofFloat?_operation (UnpackedFloat.sub _) hf hg hz heq, hrounds⟩

theorem ofFloat?_mul (hf : ofFloat? f = some x) (hg : ofFloat? g = some y)
    (hsmall : |x.value * y.value| ≤ 2 ^ (1000 : ℤ)) :
    ∃ z, ofFloat? (f * g) = some z ∧ z.negative = (x.negative ^^ y.negative) ∧
      RoundsTo (x.value * y.value) z.value := by
  rw [abs_mul, abs_value, abs_value] at hsmall
  obtain ⟨z, hz, hsign, heq, hrounds⟩ :=
    exists_mul (canonical_of_ofFloat? hf) (canonical_of_ofFloat? hg) hsmall
  refine ⟨z, ofFloat?_operation (UnpackedFloat.mul _) hf hg hz heq, hsign, ?_⟩
  rw [value, value, value, hsign]
  cases x.negative <;> cases y.negative
  · exact hrounds
  · exact mul_neg x.magnitude y.magnitude ▸ hrounds.neg
  · exact neg_mul x.magnitude y.magnitude ▸ hrounds.neg
  · exact neg_mul_neg x.magnitude y.magnitude ▸ hrounds

theorem ofFloat?_div (hf : ofFloat? f = some x) (hg : ofFloat? g = some y)
    (hpos : y.value ≠ 0) (hsmall : |x.value / y.value| ≤ 2 ^ (1000 : ℤ)) :
    ∃ z, ofFloat? (f / g) = some z ∧ z.negative = (x.negative ^^ y.negative) ∧
      RoundsTo (x.value / y.value) z.value ∧ z.Covers |x.value / y.value| := by
  rw [abs_div, abs_value, abs_value] at hsmall ⊢
  obtain ⟨z, hz, hsign, heq, hrounds, hcovers⟩ := exists_div (x := x) (mt value_of_zero hpos) hsmall
  refine ⟨z, ofFloat?_operation (UnpackedFloat.div _) hf hg hz heq, hsign, ?_, hcovers⟩
  rw [value, value, value, hsign]
  cases x.negative <;> cases y.negative
  · exact hrounds
  · exact div_neg (b := y.magnitude) x.magnitude ▸ hrounds.neg
  · exact neg_div y.magnitude x.magnitude ▸ hrounds.neg
  · exact neg_div_neg_eq x.magnitude y.magnitude ▸ hrounds

/-- A quotient changes its sign with the dividend. -/
theorem ofFloat?_neg_div {z : Binary64} (hf : ofFloat? f = some x) (hg : ofFloat? g = some y)
    (hpos : y.value ≠ 0) (hsmall : |x.value / y.value| ≤ 2 ^ (1000 : ℤ))
    (hz : ofFloat? (f / g) = some z) : ofFloat? (-f / g) = some z.neg := by
  rw [abs_div, abs_value, abs_value] at hsmall
  obtain ⟨w, hw, -, heq, -⟩ := exists_div (x := x) (mt value_of_zero hpos) hsmall
  have hfg := ofFloat?_operation (UnpackedFloat.div _) hf hg hw heq
  obtain rfl : w = z := Option.some.inj (hfg.symm.trans hz)
  refine ofFloat?_operation (UnpackedFloat.div _) (ofFloat?_neg hf) hg hw.neg ?_
  rw [unpacked_neg, unpacked_neg, neg_div_unpacked, heq]

theorem ofFloat?_toFloat (n : UInt64) :
    ∃ z, ofFloat? n.toFloat = some z ∧ z.negative = false ∧ RoundsTo n.toNat z.value := by
  have hvalue : (((n.toNat : ℕ) : ℤ) * 2 ^ (0 : ℤ) : ℚ) = n.toNat := by
    rw [zpow_zero, mul_one, Int.cast_natCast]
  have hsmall : |(((n.toNat : ℕ) : ℤ) * 2 ^ (0 : ℤ) : ℚ)| ≤ 2 ^ (1000 : ℤ) := by
    rw [hvalue, Nat.abs_cast]
    exact le_two_zpow (n := 64) (by exact_mod_cast n.toNat_lt.le) (by decide)
  obtain ⟨z, hz, hsign, heq, hrounds⟩ := exists_normalize hsmall
  refine ⟨z, ?_, hsign.trans (decide_eq_false (Int.natCast_nonneg _).not_gt), hvalue ▸ hrounds⟩
  show ofFloat? (.ofModel (.pack (UnpackedFloat.normalize _ _ _ _))) = _
  rw [heq]
  exact ofFloat?_pack hz

/-- Whole numbers with as many bits as a significand are exact. -/
theorem ofFloat?_ofNat {n : ℕ} (hn : n < 2 ^ 53) :
    ∃ z, ofFloat? (Float.ofNat n) = some z ∧ z.value = n := by
  have hrep : Representable n := by
    have h := Representable.intCast (n := n) (by rw [Nat.abs_cast]; exact_mod_cast hn)
    rwa [Int.cast_natCast] at h
  obtain ⟨p, hp, -, hpn⟩ := ofFloat?_toFloat n.toUInt64
  have hword : n.toUInt64.toNat = n := Nat.mod_eq_of_lt (hn.trans (by decide))
  rw [hword] at hpn
  -- The conversion multiplies by a power of ten, here by one.
  have hone : ofFloat? (Float.ofBits 0x3FF0000000000000) = some ⟨false, 2 ^ 52, -52⟩ := rfl
  have honeValue : (Binary64.mk false (2 ^ 52) (-52)).value = 1 := by
    show ((2 ^ 52 : ℕ) : ℚ) * 2 ^ (-52 : ℤ) = 1
    norm_num
  have hvalue : p.value * (Binary64.mk false (2 ^ 52) (-52)).value = n := by
    rw [honeValue, mul_one, hpn.eq_of_representable hrep]
  have hsmall : |p.value * (Binary64.mk false (2 ^ 52) (-52)).value| ≤ 2 ^ (1000 : ℤ) := by
    rw [hvalue, Nat.abs_cast]
    exact le_two_zpow (n := 53) (by exact_mod_cast hn.le) (by decide)
  obtain ⟨z, hz, -, hrounds⟩ := ofFloat?_mul hp hone hsmall
  refine ⟨z, ?_, ?_⟩
  · show ofFloat? (Float.ofScientific n false 0) = _
    rw [Float.ofScientific, dif_pos ⟨hn, by decide⟩]
    exact hz
  · rw [hvalue] at hrounds
    exact hrounds.eq_of_representable hrep

theorem ofFloat?_ofInt {n : ℤ} (hn : |n| < 2 ^ 53) :
    ∃ z, ofFloat? (Float.ofInt n) = some z ∧ z.value = n := by
  cases n with
  | ofNat n =>
    rw [Int.ofNat_eq_natCast, Nat.abs_cast] at hn
    obtain ⟨z, hz, hvalue⟩ := ofFloat?_ofNat (n := n) (by exact_mod_cast hn)
    exact ⟨z, hz, by rw [hvalue]; rfl⟩
  | negSucc n =>
    have hlt : n + 1 < 2 ^ 53 := by
      rw [Int.negSucc_eq, abs_neg] at hn
      exact_mod_cast hn
    obtain ⟨z, hz, hvalue⟩ := ofFloat?_ofNat hlt
    exact ⟨z.neg, ofFloat?_neg hz, by rw [value_neg, hvalue, Int.cast_negSucc]⟩

end

end Binary64

end BleCapture.Decimal
