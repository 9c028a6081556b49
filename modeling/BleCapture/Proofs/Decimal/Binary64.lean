import BleCapture.Decimal.Binary64
import Mathlib.Algebra.Order.Field.Power
import Mathlib.Algebra.Order.Field.Rat
import Mathlib.Tactic.Positivity

/-!
# The parts of a double

The parts read from the bits of a double are canonical, and they are what the
arithmetic of doubles works on. A result of that arithmetic with canonical parts
is packed into bits from which the same parts are read.
-/

namespace BleCapture.Decimal

open Float.Model
open UnpackedFloat hiding unpack pack neg

def signOf : Bool → Sign
  | true => .negative
  | false => .positive

@[simp] theorem signOf_not (negative : Bool) : signOf (!negative) = -signOf negative := by
  cases negative <;> rfl

namespace Binary64

/-- The significand is whole, unless the exponent is the least one. -/
structure Canonical (x : Binary64) : Prop where
  significand_lt : x.significand < 2 ^ 53
  le_exponent : -1074 ≤ x.exponent
  exponent_le : x.exponent ≤ 971
  normal_or_least : 2 ^ 52 ≤ x.significand ∨ x.exponent = -1074

/-- The number as the arithmetic of doubles takes it apart. -/
def unpacked (x : Binary64) : UnpackedFloat :=
  if h : x.significand = 0 then .zero (signOf x.negative)
  else .finite (signOf x.negative) x.significand x.exponent (Nat.pos_of_ne_zero h)

def neg (x : Binary64) : Binary64 := { x with negative := !x.negative }

theorem Canonical.neg {x : Binary64} (h : x.Canonical) : x.neg.Canonical :=
  ⟨h.significand_lt, h.le_exponent, h.exponent_le, h.normal_or_least⟩

@[simp] theorem unpacked_neg (x : Binary64) : x.neg.unpacked = x.unpacked.neg := by
  by_cases h : x.significand = 0
  · rw [unpacked, unpacked, dif_pos h, dif_pos (show x.neg.significand = 0 from h)]
    exact congrArg UnpackedFloat.zero (signOf_not x.negative)
  · rw [unpacked, unpacked, dif_neg h, dif_neg (show ¬ x.neg.significand = 0 from h)]
    exact congrArg (UnpackedFloat.finite · x.significand x.exponent (Nat.pos_of_ne_zero h))
      (signOf_not x.negative)

-- ---------------------------------------------------------------------------
-- Values
-- ---------------------------------------------------------------------------

def magnitude (x : Binary64) : ℚ := x.significand * 2 ^ x.exponent

def value (x : Binary64) : ℚ := if x.negative then -x.magnitude else x.magnitude

theorem magnitude_nonneg (x : Binary64) : 0 ≤ x.magnitude := by
  unfold magnitude
  positivity

theorem magnitude_eq_div (x : Binary64) : x.magnitude = x.numerator / x.denominator := by
  have hpow : (2 : ℚ) ^ x.exponent = 2 ^ x.exponent.toNat / 2 ^ (-x.exponent).toNat := by
    rw [← zpow_natCast, ← zpow_natCast, ← zpow_sub₀ two_ne_zero, Int.toNat_sub_toNat_neg]
  rw [magnitude, hpow, ← mul_div_assoc]
  norm_cast

theorem denominator_pos (x : Binary64) : 0 < x.denominator := Nat.two_pow_pos _

@[simp] theorem value_neg (x : Binary64) : x.neg.value = -x.value := by
  obtain ⟨_ | _, significand, exponent⟩ := x
  · rfl
  · exact (neg_neg _).symm

theorem abs_value (x : Binary64) : |x.value| = x.magnitude := by
  rw [value]
  split
  · rw [abs_neg, abs_of_nonneg x.magnitude_nonneg]
  · exact abs_of_nonneg x.magnitude_nonneg

theorem value_of_zero {x : Binary64} (h : x.significand = 0) : x.value = 0 := by
  rw [← abs_eq_zero, abs_value, magnitude, h, Nat.cast_zero, zero_mul]

-- ---------------------------------------------------------------------------
-- The fields of the bits
-- ---------------------------------------------------------------------------

/-- The parts that the three fields of the bits stand for. -/
def ofFields? (negative : Bool) (field fraction : Nat) : Option Binary64 :=
  if field = Nat.pow 2 11 - 1 then none
  else if field = 0 then some ⟨negative, fraction, -1074⟩
  else some ⟨negative, Nat.pow 2 52 + fraction, (field : Int) - 1075⟩

theorem toNat_unpackMantissa (b : BitVec Format.binary64.numBits) :
    (unpackMantissa b).toNat = b.toNat % 2 ^ 52 := by
  simp [unpackMantissa, BitVec.extractLsb, BitVec.extractLsb']

theorem toNat_unpackExponent (b : BitVec Format.binary64.numBits) :
    (unpackExponent b).toNat = b.toNat / 2 ^ 52 % 2 ^ 11 := by
  simp [unpackExponent, BitVec.extractLsb, BitVec.extractLsb', Nat.shiftRight_eq_div_pow]

theorem toNat_unpackSign (b : BitVec Format.binary64.numBits) :
    (unpackSign b).toNat = b.toNat / 2 ^ 63 := by
  have hlt : b.toNat < 2 ^ 64 := b.isLt
  show (b.extractLsb' 63 1).toNat = _
  rw [BitVec.extractLsb'_toNat, Nat.shiftRight_eq_div_pow]
  omega

theorem ofBits?_eq (b : BitVec Format.binary64.numBits) :
    ofBits? (UInt64.ofBitVec b) = ofFields? ((unpackSign b).toNat == 1)
      (unpackExponent b).toNat (unpackMantissa b).toNat := by
  rw [toNat_unpackSign, toNat_unpackExponent, toNat_unpackMantissa]
  rfl

theorem signOf_toNat (b : BitVec 1) : signOf (b.toNat == 1) = Sign.ofBitVec b := by
  obtain rfl | rfl := BitVec.eq_zero_or_eq_one b
  · rfl
  · rfl

theorem toNat_append_implicit (m : BitVec 52) : (1#1 ++ m).toNat = 2 ^ 52 + m.toNat := by
  rw [BitVec.toNat_append, ← Nat.shiftLeft_add_eq_or_of_lt m.isLt]
  rfl

-- ---------------------------------------------------------------------------
-- Reading
-- ---------------------------------------------------------------------------

theorem unpack_of_ofBits? {b : BitVec Format.binary64.numBits} {x : Binary64}
    (h : ofBits? (UInt64.ofBitVec b) = some x) :
    UnpackedFloat.unpack Format.binary64 b = x.unpacked ∧ x.Canonical := by
  have hfraction : (unpackMantissa b).toNat < 2 ^ 52 := (unpackMantissa b).isLt
  have hfield : (unpackExponent b).toNat < 2 ^ 11 := (unpackExponent b).isLt
  rw [ofBits?_eq, ofFields?] at h
  split at h
  · cases h
  · rename_i hfinite
    have hall : unpackExponent b ≠ -1#_ := fun e => hfinite (congrArg BitVec.toNat e)
    split at h
    · rename_i hleast
      obtain rfl := Option.some.inj h
      have hzero : unpackExponent b = 0#_ := BitVec.eq_of_toNat_eq hleast
      refine ⟨?_, Nat.lt_trans hfraction (by decide), Int.le_refl _,
        show (-1074 : Int) ≤ 971 by decide, .inr rfl⟩
      refine (if_neg hall).trans ((if_pos hzero).trans ?_)
      rw [unpacked, signOf_toNat]
      by_cases hm : unpackMantissa b = 0#_
      · have hm' : (unpackMantissa b).toNat = 0 := congrArg BitVec.toNat hm
        rw [dif_pos hm, dif_pos hm']
      · have hm' : (unpackMantissa b).toNat ≠ 0 := fun e => hm (BitVec.eq_of_toNat_eq e)
        rw [dif_neg hm, dif_neg hm', hzero]
        rfl
    · rename_i hnormal
      obtain rfl := Option.some.inj h
      have hzero : unpackExponent b ≠ 0#_ := fun e => hnormal (congrArg BitVec.toNat e)
      have hpos : ¬ Nat.pow 2 52 + (unpackMantissa b).toNat = 0 :=
        Nat.ne_of_gt (Nat.add_pos_left (by decide) _)
      refine ⟨?_, ?_, ?_, ?_, .inl (Nat.le_add_right _ _)⟩
      · refine (if_neg hall).trans ((if_neg hzero).trans ?_)
        rw [unpacked, dif_neg hpos, signOf_toNat]
        have hsignificand : ∀ {m n : Nat} {s : Sign} {e : Int} (hm : 0 < m) (hn : 0 < n), m = n →
            UnpackedFloat.finite s m e hm = .finite s n e hn := by
          rintro m _ s e _ _ rfl
          rfl
        exact hsignificand _ _ (toNat_append_implicit (unpackMantissa b))
      · exact Nat.add_lt_add_left hfraction (2 ^ 52)
      · show -1074 ≤ ((unpackExponent b).toNat : Int) - 1075
        omega
      · show ((unpackExponent b).toNat : Int) - 1075 ≤ 971
        have : (unpackExponent b).toNat ≠ 2047 := hfinite
        omega

/-- The arithmetic of doubles takes a double apart into the parts read from it. -/
theorem unpack_of_ofFloat? {f : Float} {x : Binary64} (h : ofFloat? f = some x) :
    f.toModel.unpack = x.unpacked ∧ x.Canonical :=
  unpack_of_ofBits? h

-- ---------------------------------------------------------------------------
-- Writing
-- ---------------------------------------------------------------------------

theorem ofBits?_packComponents (negative : Bool) (field : BitVec 11) (fraction : BitVec 52) :
    ofBits? (UInt64.ofBitVec (packComponents Format.binary64 (signOf negative) field fraction)) =
      ofFields? negative field.toNat fraction.toNat := by
  have hsign : unpackSign (packComponents Format.binary64 (signOf negative) field fraction) =
      (signOf negative).toBitVec := by
    show ((signOf negative).toBitVec ++ field ++ fraction).extractLsb' 63 1 = _
    rw [BitVec.extractLsb'_append_eq_of_le (by decide),
      BitVec.extractLsb'_append_eq_of_le (by decide)]
    cases negative <;> rfl
  rw [ofBits?_eq, hsign, unpackExponent_packComponents, unpackMantissa_packComponents]
  cases negative <;> rfl

theorem ofBits?_pack {x : Binary64} (h : x.Canonical) :
    ofBits? (UInt64.ofBitVec (UnpackedFloat.pack Format.binary64 x.unpacked)) = some x := by
  obtain ⟨negative, significand, exponent⟩ := x
  obtain ⟨hlt, hle, hexp, hnormal⟩ := h
  simp only at hlt hle hexp hnormal
  by_cases hzero : significand = 0
  · subst hzero
    obtain rfl : exponent = -1074 := hnormal.resolve_left (by decide)
    exact ofBits?_packComponents negative 0 0
  · have hbias : exponent + (Format.binary64.exponentBias : Int) + (52 : Nat) =
        exponent + 1075 := by
      show exponent + 1023 + 52 = _
      omega
    have hfits : ¬ 2 ^ Format.binary64.exponentBits ≤
        (exponent + (Format.binary64.exponentBias : Int) + (52 : Nat)).toNat + 1 := by
      rw [hbias]
      show ¬ 2048 ≤ (exponent + 1075).toNat + 1
      omega
    have hpack : UnpackedFloat.pack Format.binary64
        (unpacked ⟨negative, significand, exponent⟩) =
          if significand.log2 + 1 = 53 then
            packComponents Format.binary64 (signOf negative)
              (BitVec.ofNat 11 (exponent + 1075).toNat) (BitVec.ofNat 52 significand)
          else
            packComponents Format.binary64 (signOf negative) 0#11
              (BitVec.ofNat 52 significand) := by
      rw [unpacked, dif_neg hzero, ← hbias]
      exact if_neg hfits
    rw [hpack]
    by_cases hwhole : 2 ^ 52 ≤ significand
    · have hlog : significand.log2 + 1 = 53 :=
        congrArg (· + 1) ((Nat.log2_eq_iff hzero).mpr ⟨hwhole, hlt⟩)
      have hfield : (exponent + 1075).toNat % 2 ^ 11 = (exponent + 1075).toNat := by omega
      have hall : (exponent + 1075).toNat ≠ Nat.pow 2 11 - 1 := by
        show (exponent + 1075).toNat ≠ 2047
        omega
      have hpos : (exponent + 1075).toNat ≠ 0 := by omega
      rw [if_pos hlog, ofBits?_packComponents, ofFields?, BitVec.toNat_ofNat, BitVec.toNat_ofNat,
        hfield, if_neg hall, if_neg hpos]
      refine congrArg some (Binary64.mk.injEq .. ▸ ⟨rfl, ?_, ?_⟩)
      · show 2 ^ 52 + significand % 2 ^ 52 = significand
        omega
      · omega
    · have hsmall : significand < 2 ^ 52 := Nat.lt_of_not_le hwhole
      have hlog : ¬ significand.log2 + 1 = 53 := by
        have := (Nat.log2_lt hzero).mpr hsmall
        omega
      obtain rfl := hnormal.resolve_left hwhole
      rw [if_neg hlog, ofBits?_packComponents, BitVec.toNat_ofNat, BitVec.toNat_ofNat,
        Nat.mod_eq_of_lt hsmall]
      rfl

/-- A result with canonical parts is a double with these parts. -/
theorem ofFloat?_pack {x : Binary64} (h : x.Canonical) :
    ofFloat? (.ofModel (.pack x.unpacked)) = some x :=
  ofBits?_pack h

end Binary64

end BleCapture.Decimal
