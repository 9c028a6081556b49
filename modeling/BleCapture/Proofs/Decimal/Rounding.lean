import BleCapture.Decimal.Shortest
import BleCapture.Proofs.Decimal.Faithful

/-!
# Rounding to a double

Rounding drops bits of a mantissa until it fits, keeping in two further bits
whether what was dropped is zero. As long as the mantissa has enough bits to
begin with, the double that comes out is faithful to the exact number.
-/

namespace BleCapture.Decimal

open Float.Model
open UnpackedFloat hiding unpack pack neg round normalize

-- ---------------------------------------------------------------------------
-- Dropping bits
-- ---------------------------------------------------------------------------

/-- The mantissa is the whole part of `v`. The round bit tells whether a half is left of
it, the sticky bit whether anything besides. -/
structure Holds (em : ExtendedMantissa) (v : ℚ) : Prop where
  le : em.mantissa ≤ v
  lt : v < em.mantissa + 1
  round_iff : em.roundBit = true ↔ em.mantissa + 1 / 2 ≤ v
  clear_iff : em.stickyBit = false ↔ v = em.mantissa ∨ v = em.mantissa + 1 / 2

/-- Nothing is left of a number when both bits are clear. -/
theorem Holds.exact_iff {em : ExtendedMantissa} {v : ℚ} (h : Holds em v) :
    em.roundBit = false ∧ em.stickyBit = false ↔ v = em.mantissa := by
  rw [← Bool.not_eq_true, h.round_iff, h.clear_iff]
  constructor
  · rintro ⟨hlow, rfl | rfl⟩
    · rfl
    · exact absurd le_rfl hlow
  · intro hv
    exact ⟨by linarith, .inl hv⟩

theorem Holds.shiftRightOne {em : ExtendedMantissa} {v : ℚ} (h : Holds em v) :
    Holds em.shiftRightOne (v / 2) := by
  obtain ⟨q, hq⟩ : ∃ q, q = em.mantissa / 2 := ⟨_, rfl⟩
  have hle := h.le
  have hlt := h.lt
  have hclear : em.shiftRightOne.stickyBit = false ↔ v = em.mantissa := by
    rw [← h.exact_iff, ← Bool.or_eq_false_iff]
    rfl
  have hmantissa : (em.shiftRightOne.mantissa : ℚ) = q := by
    rw [hq]
    rfl
  have hround : em.shiftRightOne.roundBit = true ↔ em.mantissa % 2 = 1 := by
    show (em.mantissa % 2 != 0) = true ↔ _
    rw [bne_iff_ne, Nat.mod_two_ne_zero]
  rcases Nat.mod_two_eq_zero_or_one em.mantissa with heven | hodd
  · have hparts : (em.mantissa : ℚ) = 2 * q := by
      exact_mod_cast (by omega : em.mantissa = 2 * q)
    refine ⟨?_, ?_, ?_, ?_⟩
    · rw [hmantissa]
      linarith
    · rw [hmantissa]
      linarith
    · rw [hround, hmantissa, heven]
      exact iff_of_false zero_ne_one (by linarith)
    · rw [hclear, hmantissa]
      constructor
      · intro hv
        exact .inl (by linarith)
      · rintro (hv | hv) <;> linarith
  · have hparts : (em.mantissa : ℚ) = 2 * q + 1 := by
      exact_mod_cast (by omega : em.mantissa = 2 * q + 1)
    refine ⟨?_, ?_, ?_, ?_⟩
    · rw [hmantissa]
      linarith
    · rw [hmantissa]
      linarith
    · rw [hround, hmantissa]
      exact iff_of_true hodd (by linarith)
    · rw [hclear, hmantissa]
      constructor
      · intro hv
        exact .inr (by linarith)
      · rintro (hv | hv) <;> linarith

theorem shiftRight_succ (em : ExtendedMantissa) (n : ℕ) :
    em >>> (n + 1) = (em >>> n).shiftRightOne := rfl

theorem Holds.shiftRight {em : ExtendedMantissa} {v : ℚ} (h : Holds em v) (n : ℕ) :
    Holds (em >>> n) (v / 2 ^ n) := by
  induction n with
  | zero =>
    rw [pow_zero, div_one]
    exact h
  | succ n ih =>
    rw [shiftRight_succ, pow_succ, ← div_div]
    exact ih.shiftRightOne

theorem mantissa_shiftRight (em : ExtendedMantissa) (n : ℕ) :
    (em >>> n).mantissa = em.mantissa / 2 ^ n := by
  induction n with
  | zero => exact (Nat.div_one _).symm
  | succ n ih =>
    show (em >>> n).mantissa / 2 = _
    rw [ih, Nat.div_div_eq_div_mul, ← Nat.pow_succ]

theorem holds_add {q : ℕ} {f : ℚ} {round sticky : Bool} (h0 : 0 ≤ f) (h1 : f < 1)
    (hround : round = true ↔ 1 / 2 ≤ f) (hclear : sticky = false ↔ f = 0 ∨ f = 1 / 2) :
    Holds ⟨q, round, sticky⟩ (q + f) where
  le := le_add_of_nonneg_right h0
  lt := add_lt_add_right h1 _
  round_iff := hround.trans (add_le_add_iff_left _).symm
  clear_iff := hclear.trans (or_congr add_eq_left.symm (add_right_inj _).symm)

theorem holds_exact (m : ℕ) : Holds (.ofMantissaAndAccuracy m .exact) m := by
  have h : Holds ⟨m, false, false⟩ ((m : ℚ) + 0) := holds_add le_rfl one_pos
    (iff_of_false Bool.false_ne_true (by norm_num)) (iff_of_true rfl (.inl rfl))
  rwa [add_zero] at h

theorem mantissa_ofMantissaAndAccuracy (m : ℕ) (a : Accuracy) :
    (ExtendedMantissa.ofMantissaAndAccuracy m a).mantissa = m := by
  rcases a with _ | (_ | _ | _) <;> rfl

/-- A quotient of whole numbers and what is left of it, compared with nothing and with a
half. -/
theorem exists_fraction (num : ℕ) {den : ℕ} (hden : 0 < den) :
    ∃ f : ℚ, (num / den : ℚ) = (num / den : ℕ) + f ∧ 0 ≤ f ∧ f < 1 ∧
      (num % den = 0 ↔ f = 0) ∧ (2 * (num % den) < den ↔ f < 1 / 2) ∧
      (2 * (num % den) = den ↔ f = 1 / 2) := by
  have hpos : (0 : ℚ) < den := Nat.cast_pos.mpr hden
  have hrest : (num % den : ℕ) / (den : ℚ) * den = (num % den : ℕ) := div_mul_cancel₀ _ hpos.ne'
  refine ⟨(num % den : ℕ) / den, ?_, by positivity, ?_, ?_, ?_, ?_⟩
  · rw [div_eq_iff hpos.ne', add_mul, hrest, mul_comm]
    exact_mod_cast (Nat.div_add_mod num den).symm
  · rw [div_lt_one hpos]
    exact_mod_cast Nat.mod_lt num hden
  · rw [div_eq_zero_iff, or_iff_left hpos.ne', Nat.cast_eq_zero]
  · rw [div_lt_div_iff₀ hpos two_pos, one_mul, mul_comm]
    exact_mod_cast Iff.rfl
  · rw [div_eq_div_iff hpos.ne' two_ne_zero, one_mul, mul_comm]
    exact_mod_cast Iff.rfl

/-- A quotient with the accuracy of its remainder. -/
theorem holds_fraction (num : ℕ) {den : ℕ} (hden : 0 < den) :
    Holds (.ofMantissaAndAccuracy (num / den) (accuracyOfFraction (num % den) den))
      (num / den) := by
  obtain ⟨f, hvalue, hf0, hf1, hzero_iff, hlow_iff, hhalf_iff⟩ := exists_fraction num hden
  rw [hvalue, accuracyOfFraction]
  generalize num / den = q
  split
  · rename_i hzero
    rw [hzero_iff.mp hzero, add_zero]
    exact holds_exact q
  · rename_i hsome
    have hpos : 0 < f := lt_of_le_of_ne hf0 (Ne.symm (mt hzero_iff.mpr hsome))
    rcases lt_trichotomy (2 * (num % den)) den with hlt | heq | hgt
    · have hlow := hlow_iff.mp hlt
      rw [Nat.compare_eq_lt.mpr hlt]
      refine holds_add hf0 hf1 (iff_of_false Bool.false_ne_true hlow.not_ge)
        (iff_of_false (Ne.symm Bool.false_ne_true) ?_)
      rintro (h | h) <;> linarith
    · have hhalf := hhalf_iff.mp heq
      rw [Nat.compare_eq_eq.mpr heq]
      exact holds_add hf0 hf1 (iff_of_true rfl hhalf.ge) (iff_of_true rfl (.inr hhalf))
    · have hhigh : 1 / 2 < f := by
        refine lt_of_le_of_ne (not_lt.mp (mt hlow_iff.mpr hgt.not_gt)) ?_
        exact fun h => hgt.ne' (hhalf_iff.mpr h.symm)
      rw [Nat.compare_eq_gt.mpr hgt]
      refine holds_add hf0 hf1 (iff_of_true rfl hhigh.le)
        (iff_of_false (Ne.symm Bool.false_ne_true) ?_)
      rintro (h | h) <;> linarith

/-- A rounded mantissa is the whole part or the next number. -/
theorem roundedMantissa_bounds (em : ExtendedMantissa) :
    em.mantissa ≤ em.roundedMantissa ∧ em.roundedMantissa ≤ em.mantissa + 1 := by
  obtain ⟨m, _ | _, _ | _⟩ := em
  · exact ⟨Nat.le_refl m, Nat.le_succ m⟩
  · exact ⟨Nat.le_refl m, Nat.le_succ m⟩
  · exact ⟨Nat.le_add_right m _, Nat.add_le_add_left (Nat.le_of_lt_succ (Nat.mod_lt m two_pos)) m⟩
  · exact ⟨Nat.le_succ m, Nat.le_refl _⟩

theorem Holds.roundedMantissa_eq {em : ExtendedMantissa} {v : ℚ} (h : Holds em v)
    (hv : v = em.mantissa) : em.roundedMantissa = em.mantissa := by
  obtain ⟨m, round, sticky⟩ := em
  obtain ⟨rfl, rfl⟩ := h.exact_iff.mpr hv
  rfl

/-- A rounded mantissa is nearest to the number, and even in the middle of two. -/
theorem Holds.near {em : ExtendedMantissa} {v : ℚ} (h : Holds em v) :
    (em.roundedMantissa : ℚ) - 1 / 2 ≤ v ∧ v ≤ em.roundedMantissa + 1 / 2 ∧
      (em.roundedMantissa % 2 ≠ 0 →
        (em.roundedMantissa : ℚ) - 1 / 2 < v ∧ v < em.roundedMantissa + 1 / 2) := by
  obtain ⟨m, round, sticky⟩ := em
  obtain ⟨hle, hlt, hround, hclear⟩ := h
  simp only at hle hlt hround hclear
  cases round with
  | false =>
    have hlow : v < m + 1 / 2 := not_le.mp (mt hround.mpr Bool.false_ne_true)
    have hrounded : (ExtendedMantissa.mk m false sticky).roundedMantissa = m := by
      cases sticky <;> rfl
    rw [hrounded]
    exact ⟨by linarith, hlow.le, fun _ => ⟨by linarith, hlow⟩⟩
  | true =>
    have hhigh : m + 1 / 2 ≤ v := hround.mp rfl
    cases sticky with
    | false =>
      have hv : v = m + 1 / 2 := (hclear.mp rfl).resolve_left fun h => by linarith
      show ((m + m % 2 : ℕ) : ℚ) - 1 / 2 ≤ v ∧ v ≤ ((m + m % 2 : ℕ) : ℚ) + 1 / 2 ∧ _
      have heven : (m + m % 2) % 2 = 0 := by omega
      have hparity : ((m % 2 : ℕ) : ℚ) ≤ 1 := by
        exact_mod_cast Nat.le_of_lt_succ (Nat.mod_lt m two_pos)
      have hnonneg : (0 : ℚ) ≤ ((m % 2 : ℕ) : ℚ) := Nat.cast_nonneg _
      rw [Nat.cast_add]
      exact ⟨by linarith, by linarith, fun h => absurd heven h⟩
    | true =>
      have hne : v ≠ m + 1 / 2 := fun h => Bool.noConfusion (hclear.mpr (.inr h))
      have hstrict := lt_of_le_of_ne hhigh hne.symm
      show ((m + 1 : ℕ) : ℚ) - 1 / 2 ≤ v ∧ v ≤ ((m + 1 : ℕ) : ℚ) + 1 / 2 ∧
        (_ → ((m + 1 : ℕ) : ℚ) - 1 / 2 < v ∧ v < ((m + 1 : ℕ) : ℚ) + 1 / 2)
      rw [Nat.cast_succ]
      exact ⟨by linarith, by linarith, fun _ => ⟨by linarith, by linarith⟩⟩

/-- On a grid without doubles in between, a rounded mantissa is faithful. -/
theorem Holds.roundsTo {em : ExtendedMantissa} {w : ℚ} (h : Holds em w) {t : ℤ}
    (hgrid : 2 ^ 52 ≤ em.mantissa ∨ t = -1074)
    (hrep : Representable (em.roundedMantissa * 2 ^ t)) :
    RoundsTo (w * 2 ^ t) (em.roundedMantissa * 2 ^ t) where
  representable := hrep
  le_of_le q hq hle := by
    rcases le_or_gt q (em.mantissa * 2 ^ t) with hlow | hhigh
    · refine hlow.trans (mul_le_mul_of_nonneg_right ?_ (two_zpow_pos t).le)
      exact_mod_cast (roundedMantissa_bounds em).1
    · have hnext := hq.next_le hgrid hhigh
      have hlt := mul_lt_mul_of_pos_right h.lt (two_zpow_pos t)
      exact absurd (hnext.trans hle) hlt.not_ge
  ge_of_ge q hq hge := by
    by_cases hexact : w = em.mantissa
    · rwa [h.roundedMantissa_eq hexact, ← hexact]
    · have hlt := mul_lt_mul_of_pos_right (lt_of_le_of_ne h.le (Ne.symm hexact)) (two_zpow_pos t)
      refine le_trans (mul_le_mul_of_nonneg_right ?_ (two_zpow_pos t).le)
        (hq.next_le hgrid (hlt.trans_le hge))
      exact_mod_cast (roundedMantissa_bounds em).2

-- ---------------------------------------------------------------------------
-- Where the grid is
-- ---------------------------------------------------------------------------

theorem targetExponent_binary64 (m : ℕ) (e : ℤ) :
    Format.binary64.targetExponent (totalExponent m e) = max (m.log2 + e - 52) (-1074) := by
  show max ((m.log2 : ℤ) + 1 + e - 53) (-1074) = _
  congr 1
  ring

/-- A mantissa with all the bits that a double with this exponent can take. -/
def EnoughBits (m : ℕ) (e : ℤ) : Prop := 52 ≤ m.log2 ∨ e ≤ -1074

section
variable {m : ℕ} {e t : ℤ}

/-- Enough bits are cut down to a significand, or to the least exponent. -/
theorem EnoughBits.shifted (h : EnoughBits m e) (ht : t = max (m.log2 + e - 52) (-1074)) :
    e ≤ t ∧ m / 2 ^ (t - e).toNat < 2 ^ 53 ∧ (2 ^ 52 ≤ m / 2 ^ (t - e).toNat ∨ t = -1074) := by
  have hle : e ≤ t := by
    rcases h with h | h <;> omega
  have hlog : m < 2 ^ (m.log2 + 1) := Nat.lt_log2_self
  refine ⟨hle, ?_, ?_⟩
  · rw [Nat.div_lt_iff_lt_mul (Nat.two_pow_pos _), ← Nat.pow_add]
    exact hlog.trans_le (Nat.pow_le_pow_right two_pos (by omega))
  · rcases eq_or_ne t (-1074) with hleast | hleast
    · exact .inr hleast
    · refine .inl ((Nat.le_div_iff_mul_le (Nat.two_pow_pos _)).mpr ?_)
      have hbits : 52 ≤ m.log2 := by
        rcases h with h | h <;> omega
      have hm : m ≠ 0 := by
        rintro rfl
        exact absurd hbits (by decide)
      rw [← Nat.pow_add]
      exact (Nat.pow_le_pow_right two_pos (by omega)).trans (Nat.log2_self_le hm)

theorem shiftToTargetExponent_eq (h : EnoughBits m e) (a : Accuracy)
    (ht : t = max (m.log2 + e - 52) (-1074)) :
    shiftToTargetExponent Format.binary64 m e a =
      (ExtendedMantissa.ofMantissaAndAccuracy m a >>> (t - e).toNat, t) := by
  have hle := (h.shifted ht).1
  rw [shiftToTargetExponent, targetExponent_binary64, ← ht, shiftToExponent]
  refine Prod.ext rfl ?_
  show e + ((t - e).toNat : ℤ) = t
  omega

end

theorem shiftToTargetExponent_of_lt {r : ℕ} {t : ℤ} (hr : r < 2 ^ 53) (ht : -1074 ≤ t) :
    shiftToTargetExponent Format.binary64 r t .exact =
      (.ofMantissaAndAccuracy r .exact, t) := by
  have hlog : r.log2 < 53 := by
    rcases eq_or_ne r 0 with rfl | hpos
    · decide
    · exact (Nat.log2_lt hpos).mpr hr
  have hshift : (max (r.log2 + t - 52) (-1074) - t).toNat = 0 := by omega
  rw [shiftToTargetExponent, targetExponent_binary64, shiftToExponent, hshift]
  exact Prod.ext rfl (add_zero t)

/-- A carry has made the mantissa too long by one bit. -/
theorem shiftToTargetExponent_carry {t : ℤ} (ht : -1074 ≤ t) :
    shiftToTargetExponent Format.binary64 (2 ^ 53) t .exact =
      (.ofMantissaAndAccuracy (2 ^ 52) .exact, t + 1) := by
  have hshift : (max (((2 ^ 53 : ℕ).log2 : ℤ) + t - 52) (-1074) - t).toNat = 1 := by
    rw [Nat.log2_two_pow]
    omega
  rw [shiftToTargetExponent, targetExponent_binary64, shiftToExponent, hshift]
  rfl

-- ---------------------------------------------------------------------------
-- The interval of a double
-- ---------------------------------------------------------------------------

/-- The magnitudes for which a double stands. The ends belong to the interval when the
significand is even. -/
def Binary64.Covers (x : Binary64) (v : ℚ) : Prop :=
  if x.significand % 2 = 0 then
    x.lowerEnd * 2 ^ (x.exponent - 2) ≤ v ∧ v ≤ x.upperEnd * 2 ^ (x.exponent - 2)
  else x.lowerEnd * 2 ^ (x.exponent - 2) < v ∧ v < x.upperEnd * 2 ^ (x.exponent - 2)

theorem two_zpow_eq_quarters (t : ℤ) : (2 : ℚ) ^ t = 4 * 2 ^ (t - 2) := by
  rw [zpow_sub₀ two_ne_zero]
  norm_num
  ring

/-- A number within half a unit of the last place, and within a quarter below a power of
two, where the places get finer. -/
theorem Binary64.covers_of_near {negative : Bool} {s : ℕ} {t : ℤ} {w : ℚ} (hw : 0 ≤ w)
    (hlow : s - 1 / 2 ≤ w) (hhigh : w ≤ s + 1 / 2)
    (hodd : s % 2 ≠ 0 → s - 1 / 2 < w ∧ w < s + 1 / 2)
    (hpower : s = 2 ^ 52 → -1074 < t → s - 1 / 4 ≤ w) :
    (Binary64.mk negative s t).Covers (w * 2 ^ t) := by
  have hquarter := two_zpow_eq_quarters t
  have hpos := two_zpow_pos (t - 2)
  have hupper : ((Binary64.mk negative s t).upperEnd : ℚ) = 4 * s + 2 := by
    exact_mod_cast rfl
  have hlower : ((Binary64.mk negative s t).lowerEnd : ℚ) ≤ 4 * w ∧
      (s % 2 ≠ 0 → ((Binary64.mk negative s t).lowerEnd : ℚ) < 4 * w) := by
    rw [lowerEnd]
    split
    · rename_i h
      obtain ⟨rfl, hfine⟩ : s = 2 ^ 52 ∧ -1074 < t := h
      refine ⟨?_, fun hodd => absurd rfl hodd⟩
      have hw' := hpower rfl hfine
      push_cast at hw' ⊢
      linarith
    · rcases Nat.eq_zero_or_pos s with rfl | hs
      · exact ⟨by simpa using hw, fun h' => absurd rfl h'⟩
      · have hcast : ((4 * s - 2 : ℕ) : ℚ) = 4 * s - 2 := by
          rw [Nat.cast_sub (by omega)]
          push_cast
          rfl
        simp only [hcast]
        exact ⟨by linarith, fun h' => by linarith [(hodd h').1]⟩
  rw [Covers]
  simp only
  rw [hupper, hquarter, ← mul_assoc, mul_comm w 4]
  split
  · exact ⟨mul_le_mul_of_nonneg_right hlower.1 hpos.le,
      mul_le_mul_of_nonneg_right (by linarith) hpos.le⟩
  · rename_i h
    obtain ⟨-, hstrict⟩ := hodd h
    exact ⟨mul_lt_mul_of_pos_right (hlower.2 h) hpos,
      mul_lt_mul_of_pos_right (by linarith) hpos⟩

-- ---------------------------------------------------------------------------
-- Rounding
-- ---------------------------------------------------------------------------

/-- No mantissa has more than the thousand bits before the point that its value has. -/
theorem log2_add_exponent_le {m : ℕ} {e : ℤ} {a : Accuracy} {v : ℚ} (hm : m ≠ 0)
    (hv : Holds (.ofMantissaAndAccuracy m a) v) (hsmall : v * 2 ^ e ≤ 2 ^ (1000 : ℤ)) :
    m.log2 + e ≤ 1000 := by
  have hle : (m : ℚ) ≤ v := mantissa_ofMantissaAndAccuracy m a ▸ hv.le
  have hlow : (2 : ℚ) ^ m.log2 ≤ m := by exact_mod_cast Nat.log2_self_le hm
  have hpow : (2 : ℚ) ^ ((m.log2 : ℤ) + e) ≤ 2 ^ (1000 : ℤ) := by
    rw [zpow_add₀ two_ne_zero, zpow_natCast]
    exact (mul_le_mul_of_nonneg_right (hlow.trans hle) (two_zpow_pos e).le).trans hsmall
  exact (zpow_le_zpow_iff_right₀ one_lt_two).mp hpow

/-- `w` units of `2 ^ t` in a mantissa that fits the grid of the doubles there. -/
structure Aligned (em : ExtendedMantissa) (w : ℚ) (t : ℤ) : Prop where
  holds : Holds em w
  mantissa_lt : em.mantissa < 2 ^ 53
  grid : 2 ^ 52 ≤ em.mantissa ∨ t = -1074
  le_exponent : -1074 ≤ t
  exponent_le : t ≤ 948

theorem exists_aligned {m : ℕ} {e : ℤ} {a : Accuracy} {v : ℚ} (hbits : EnoughBits m e)
    (hv : Holds (.ofMantissaAndAccuracy m a) v) (hsmall : v * 2 ^ e ≤ 2 ^ (1000 : ℤ)) :
    ∃ em w t, Aligned em w t ∧ v * 2 ^ e = w * 2 ^ t ∧
      shiftToTargetExponent Format.binary64 m e a = (em, t) := by
  obtain ⟨t, ht⟩ : ∃ t, t = max (m.log2 + e - 52) (-1074) := ⟨_, rfl⟩
  obtain ⟨hle, hlong, hgrid⟩ := hbits.shifted ht
  have hsmallExponent : t ≤ 948 := by
    rcases eq_or_ne m 0 with rfl | hm
    · rcases hbits with h | h
      · exact absurd h (by decide)
      · have hlog : (Nat.log2 0 : ℤ) = 0 := rfl
        omega
    · have hlog := log2_add_exponent_le hm hv hsmall
      omega
  have hscale : v * 2 ^ e = v / 2 ^ (t - e).toNat * 2 ^ t := by
    have hexp : t = ((t - e).toNat : ℤ) + e := by omega
    have hsum : (2 : ℚ) ^ t = 2 ^ (t - e).toNat * 2 ^ e := by
      rw [← zpow_natCast, ← zpow_add₀ two_ne_zero]
      exact congrArg (2 ^ ·) hexp
    rw [hsum, ← mul_assoc, div_mul_cancel₀ _ (pow_ne_zero _ two_ne_zero)]
  have hmantissa : (ExtendedMantissa.ofMantissaAndAccuracy m a >>> (t - e).toNat).mantissa =
      m / 2 ^ (t - e).toNat := by
    rw [mantissa_shiftRight, mantissa_ofMantissaAndAccuracy]
  refine ⟨_, _, t, ⟨hv.shiftRight _, ?_, ?_, ?_, hsmallExponent⟩, hscale,
    shiftToTargetExponent_eq hbits a ht⟩
  · rwa [hmantissa]
  · rwa [hmantissa]
  · omega

section
variable {em : ExtendedMantissa} {w : ℚ} {t : ℤ}

theorem Aligned.nonneg (h : Aligned em w t) : 0 ≤ w := (Nat.cast_nonneg _).trans h.holds.le

/-- A rounded mantissa that stays short enough is the significand. -/
theorem Aligned.of_short (h : Aligned em w t) (hshort : em.roundedMantissa < 2 ^ 53)
    (negative : Bool) :
    (Binary64.mk negative em.roundedMantissa t).Canonical ∧
      RoundsTo (w * 2 ^ t) (em.roundedMantissa * 2 ^ t) ∧
      (Binary64.mk negative em.roundedMantissa t).Covers (w * 2 ^ t) := by
  obtain ⟨hnear, hnear', hodd⟩ := h.holds.near
  have hle : t ≤ 971 := h.exponent_le.trans (by decide)
  have hcanonical : (Binary64.mk negative em.roundedMantissa t).Canonical :=
    ⟨hshort, h.le_exponent, hle, h.grid.imp_left fun h => h.trans (roundedMantissa_bounds em).1⟩
  refine ⟨hcanonical, h.holds.roundsTo h.grid hcanonical.representable_magnitude, ?_⟩
  refine Binary64.covers_of_near h.nonneg hnear hnear' hodd fun hpower hfine => ?_
  have hwhole := h.grid.resolve_right hfine.ne'
  have hle : (em.roundedMantissa : ℚ) ≤ em.mantissa := by exact_mod_cast hpower ▸ hwhole
  linarith [h.holds.le]

/-- After a carry the significand is the least one, with the next exponent. -/
theorem Aligned.of_carry (h : Aligned em w t) (hcarry : em.roundedMantissa = 2 ^ 53)
    (negative : Bool) :
    (Binary64.mk negative (2 ^ 52) (t + 1)).Canonical ∧
      RoundsTo (w * 2 ^ t) ((2 ^ 52 : ℕ) * 2 ^ (t + 1)) ∧
      (Binary64.mk negative (2 ^ 52) (t + 1)).Covers (w * 2 ^ t) := by
  have hge : -1074 ≤ t + 1 := Int.le_add_one h.le_exponent
  have hle : t + 1 ≤ 971 := (Int.add_le_add_right h.exponent_le 1).trans (by decide)
  have hcanonical : (Binary64.mk negative (2 ^ 52) (t + 1)).Canonical :=
    ⟨Nat.pow_lt_pow_right (by decide) (by decide), hge, hle, .inl le_rfl⟩
  have hvalue : ((2 ^ 52 : ℕ) * 2 ^ (t + 1) : ℚ) = em.roundedMantissa * 2 ^ t := by
    rw [hcarry, zpow_add_one₀ two_ne_zero]
    push_cast
    ring
  refine ⟨hcanonical, ?_, ?_⟩
  · rw [hvalue]
    exact h.holds.roundsTo h.grid (hvalue ▸ hcanonical.representable_magnitude)
  · have hhalf : w * 2 ^ t = w / 2 * 2 ^ (t + 1) := by
      rw [zpow_add_one₀ two_ne_zero]
      ring
    obtain ⟨hnear, hnear', -⟩ := h.holds.near
    have hnonneg := h.nonneg
    rw [hcarry] at hnear hnear'
    push_cast at hnear hnear'
    rw [hhalf]
    refine Binary64.covers_of_near (by linarith) ?_ ?_ (fun h => absurd rfl h) fun _ _ => ?_
    · push_cast
      linarith
    · push_cast
      linarith
    · push_cast
      linarith

end

/-- Rounding shifts the mantissa, and once more after a carry. -/
theorem roundWithAccuracy_eq {m r : ℕ} {e t f : ℤ} {a : Accuracy} {em : ExtendedMantissa}
    (hround : shiftToTargetExponent Format.binary64 m e a = (em, t))
    (hcarry : shiftToTargetExponent Format.binary64 em.roundedMantissa t .exact =
      (.ofMantissaAndAccuracy r .exact, f)) (negative : Bool) :
    roundWithAccuracy Format.binary64 (signOf negative) m e a =
      (Binary64.mk negative r f).unpacked := by
  rw [roundWithAccuracy, hround]
  dsimp only
  rw [hcarry]
  rfl

theorem exists_roundWithAccuracy {m : ℕ} {e : ℤ} {a : Accuracy} {v : ℚ} (hbits : EnoughBits m e)
    (hv : Holds (.ofMantissaAndAccuracy m a) v) (hsmall : v * 2 ^ e ≤ 2 ^ (1000 : ℤ)) :
    ∃ (significand : ℕ) (exponent : ℤ), RoundsTo (v * 2 ^ e) (significand * 2 ^ exponent) ∧
      ∀ negative, (Binary64.mk negative significand exponent).Canonical ∧
        (Binary64.mk negative significand exponent).Covers (v * 2 ^ e) ∧
        roundWithAccuracy Format.binary64 (signOf negative) m e a =
          (Binary64.mk negative significand exponent).unpacked := by
  obtain ⟨em, w, t, h, hscale, hround⟩ := exists_aligned hbits hv hsmall
  rw [hscale]
  have hlong : em.roundedMantissa ≤ 2 ^ 53 := (roundedMantissa_bounds em).2.trans h.mantissa_lt
  rcases hlong.lt_or_eq with hshort | hcarry
  · refine ⟨em.roundedMantissa, t, (h.of_short hshort false).2.1, fun negative => ?_⟩
    obtain ⟨hcanonical, -, hcovers⟩ := h.of_short hshort negative
    exact ⟨hcanonical, hcovers,
      roundWithAccuracy_eq hround (shiftToTargetExponent_of_lt hshort h.le_exponent) negative⟩
  · refine ⟨2 ^ 52, t + 1, (h.of_carry hcarry false).2.1, fun negative => ?_⟩
    obtain ⟨hcanonical, -, hcovers⟩ := h.of_carry hcarry negative
    refine ⟨hcanonical, hcovers, roundWithAccuracy_eq hround ?_ negative⟩
    rw [hcarry]
    exact shiftToTargetExponent_carry h.le_exponent

theorem log2_shiftLeft {m : ℕ} (hm : m ≠ 0) (k : ℕ) : (m <<< k).log2 = m.log2 + k := by
  induction k with
  | zero => rfl
  | succ k ih =>
    have hne : m <<< k ≠ 0 := Nat.shiftLeft_eq_zero_iff.not.mpr hm
    rw [Nat.shiftLeft_succ, Nat.log2_two_mul hne, ih, Nat.add_assoc]

/-- A whole mantissa with any exponent, written with enough bits first. -/
theorem exists_round {m : ℕ} {e : ℤ} (hm : m ≠ 0) (hsmall : (m * 2 ^ e : ℚ) ≤ 2 ^ (1000 : ℤ)) :
    ∃ (significand : ℕ) (exponent : ℤ), RoundsTo (m * 2 ^ e) (significand * 2 ^ exponent) ∧
      ∀ negative, (Binary64.mk negative significand exponent).Canonical ∧
        UnpackedFloat.round Format.binary64 (signOf negative) m e =
          (Binary64.mk negative significand exponent).unpacked := by
  obtain ⟨k, hk⟩ : ∃ k, k = (e - max (m.log2 + e - 52) (-1074)).toNat := ⟨_, rfl⟩
  have hlog := log2_shiftLeft hm k
  have hbits : EnoughBits (m <<< k) (e - k) := by
    unfold EnoughBits
    omega
  have hvalue : ((m <<< k : ℕ) * 2 ^ (e - k) : ℚ) = m * 2 ^ e := by
    rw [Nat.shiftLeft_eq, zpow_sub₀ two_ne_zero, zpow_natCast]
    push_cast
    rw [mul_assoc, mul_div_cancel₀ _ (pow_ne_zero k two_ne_zero)]
  obtain ⟨significand, exponent, hrounds, hround⟩ :=
    exists_roundWithAccuracy hbits (holds_exact _) (hvalue ▸ hsmall)
  refine ⟨significand, exponent, hvalue ▸ hrounds, fun negative => ?_⟩
  obtain ⟨hcanonical, -, heq⟩ := hround negative
  refine ⟨hcanonical, ?_⟩
  rw [← heq, UnpackedFloat.round, targetExponent_binary64, decreaseExponent, hk]

/-- A signed mantissa; zero becomes positive zero. -/
theorem exists_normalize {m : ℤ} {e : ℤ} (hsmall : |(m * 2 ^ e : ℚ)| ≤ 2 ^ (1000 : ℤ)) :
    ∃ z : Binary64, z.Canonical ∧ z.negative = decide (m < 0) ∧
      UnpackedFloat.normalize Format.binary64 m e .positive = z.unpacked ∧
        RoundsTo (m * 2 ^ e) z.value := by
  rcases eq_or_ne m 0 with rfl | hm
  · refine ⟨⟨false, 0, -1074⟩, ⟨by decide, by decide, by decide, .inr rfl⟩, rfl, rfl, ?_⟩
    rw [Int.cast_zero, zero_mul, Binary64.value_of_zero rfl]
    exact .of_representable .zero
  · have habs : |(m * 2 ^ e : ℚ)| = m.natAbs * 2 ^ e := by
      rw [abs_mul, abs_of_pos (two_zpow_pos e), Nat.cast_natAbs, Int.cast_abs]
    obtain ⟨significand, exponent, hrounds, hround⟩ :=
      exists_round (Int.natAbs_ne_zero.mpr hm) (habs ▸ hsmall)
    rcases hm.lt_or_gt with hneg | hpos
    · obtain ⟨hcanonical, heq⟩ := hround true
      refine ⟨_, hcanonical, (decide_eq_true hneg).symm, ?_, ?_⟩
      · have hnat : (-m).toNat = m.natAbs := by omega
        rw [← heq, UnpackedFloat.normalize, Int.compare_eq_lt.mpr hneg, hnat]
        rfl
      · have hvalue : (m * 2 ^ e : ℚ) = -(m.natAbs * 2 ^ e) := by
          rw [← habs, abs_of_neg (mul_neg_of_neg_of_pos (by exact_mod_cast hneg) (two_zpow_pos e)),
            neg_neg]
        rw [hvalue]
        exact hrounds.neg
    · obtain ⟨hcanonical, heq⟩ := hround false
      refine ⟨_, hcanonical, (decide_eq_false hpos.not_gt).symm, ?_, ?_⟩
      · have hnat : m.toNat = m.natAbs := by omega
        rw [← heq, UnpackedFloat.normalize, Int.compare_eq_gt.mpr hpos, hnat]
        rfl
      · have hvalue : (m * 2 ^ e : ℚ) = m.natAbs * 2 ^ e := by
          rw [← habs, abs_of_pos (mul_pos (by exact_mod_cast hpos) (two_zpow_pos e))]
        rw [hvalue]
        exact hrounds

end BleCapture.Decimal
