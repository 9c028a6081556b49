import BleCapture.Proofs.Decimal.Binary64
import Mathlib.Tactic.Linarith
import Mathlib.Tactic.Ring

/-!
# Faithful rounding

Doubles lie on a grid that is coarser for greater numbers. The result of an
operation is a double next to the exact number: no third double separates them.
That it is the nearer one of two neighbours is not needed for what follows.
-/

namespace BleCapture.Decimal

/-- A number that a finite double can have. -/
def Representable (q : ℚ) : Prop :=
  ∃ n e : ℤ, |n| < 2 ^ 53 ∧ -1074 ≤ e ∧ e ≤ 971 ∧ q = n * 2 ^ e

/-- `r` stands for `v`: every double on one side of `v` is on that side of `r`. -/
structure RoundsTo (v r : ℚ) : Prop where
  representable : Representable r
  le_of_le : ∀ q, Representable q → q ≤ v → q ≤ r
  ge_of_ge : ∀ q, Representable q → v ≤ q → r ≤ q

theorem two_zpow_pos (e : ℤ) : (0 : ℚ) < 2 ^ e := zpow_pos two_pos e

theorem le_two_zpow {v : ℚ} {n : ℕ} {k : ℤ} (hv : v ≤ 2 ^ n) (hk : n ≤ k) : v ≤ 2 ^ k :=
  hv.trans (by
    rw [← zpow_natCast]
    exact zpow_le_zpow_right₀ one_le_two hk)

/-- Whole numbers less than one apart are the same. -/
theorem eq_of_near {m n : ℕ} (h : (m : ℚ) < n + 1) (h' : (n : ℚ) < m + 1) : m = n := by
  have hle : m < n + 1 := by exact_mod_cast h
  have hge : n < m + 1 := by exact_mod_cast h'
  exact Nat.le_antisymm (Nat.lt_succ_iff.mp hle) (Nat.lt_succ_iff.mp hge)

namespace Representable

theorem neg {q : ℚ} (h : Representable q) : Representable (-q) := by
  obtain ⟨n, e, hn, hle, hge, rfl⟩ := h
  exact ⟨-n, e, by rwa [abs_neg], hle, hge, by push_cast; ring⟩

theorem intCast {n : ℤ} (h : |n| < 2 ^ 53) : Representable n :=
  ⟨n, 0, h, by decide, by decide, by rw [zpow_zero, mul_one]⟩

theorem zero : Representable 0 := by
  have h := intCast (n := 0) (by decide)
  rwa [Int.cast_zero] at h

theorem two_zpow {e : ℤ} (hle : -1074 ≤ e) (hge : e ≤ 971) : Representable (2 ^ e) :=
  ⟨1, e, by decide, hle, hge, by rw [Int.cast_one, one_mul]⟩

/-- Halves of whole numbers. -/
theorem half {n : ℤ} (h : |n| < 2 ^ 53) : Representable (n / 2) :=
  ⟨n, -1, h, by decide, by decide, by rw [zpow_neg_one, div_eq_mul_inv]⟩

/-- Every double is a multiple of the least one. -/
theorem exists_units {q : ℚ} (h : Representable q) : ∃ n : ℤ, q = n * 2 ^ (-1074 : ℤ) := by
  obtain ⟨n, e, -, hle, -, rfl⟩ := h
  obtain ⟨k, hk⟩ := Int.eq_ofNat_of_zero_le (sub_nonneg.mpr hle)
  refine ⟨n * 2 ^ k, ?_⟩
  have he : e = (k : ℤ) + -1074 := by omega
  rw [he, zpow_add₀ two_ne_zero, zpow_natCast, Int.cast_mul, Int.cast_pow, Int.cast_ofNat,
    mul_assoc]

/-- No double lies strictly between two neighbours of the grid. -/
theorem next_le {q : ℚ} (h : Representable q) {m : ℕ} {t : ℤ}
    (hgrid : 2 ^ 52 ≤ m ∨ t = -1074) (hlt : m * 2 ^ t < q) : (m + 1) * 2 ^ t ≤ q := by
  obtain ⟨n, e, hn, hle, -, rfl⟩ := h
  rcases le_or_gt t e with hte | hte
  · obtain ⟨k, hk⟩ := Int.eq_ofNat_of_zero_le (sub_nonneg.mpr hte)
    have hvalue : (n * 2 ^ e : ℚ) = ((n * 2 ^ k : ℤ) : ℚ) * 2 ^ t := by
      have he : e = (k : ℤ) + t := by omega
      rw [he, zpow_add₀ two_ne_zero, zpow_natCast]
      push_cast
      ring
    rw [hvalue] at hlt ⊢
    have hwhole : (m : ℤ) < n * 2 ^ k := by
      exact_mod_cast lt_of_mul_lt_mul_right hlt (two_zpow_pos t).le
    exact mul_le_mul_of_nonneg_right (by exact_mod_cast hwhole) (two_zpow_pos t).le
  -- A finer exponent is possible for smaller numbers only.
  · exfalso
    have hm : 2 ^ 52 ≤ m := hgrid.resolve_right (by omega)
    have hmq : (2 ^ 52 : ℚ) ≤ m := by exact_mod_cast hm
    have hnq : (n : ℚ) ≤ 2 ^ 53 := by exact_mod_cast (le_abs_self n).trans hn.le
    have hsmaller : (n * 2 ^ e : ℚ) ≤ m * 2 ^ t := by
      calc (n * 2 ^ e : ℚ) ≤ 2 ^ 53 * 2 ^ e :=
            mul_le_mul_of_nonneg_right hnq (two_zpow_pos e).le
        _ = 2 ^ 52 * 2 ^ (e + 1) := by
            rw [zpow_add_one₀ two_ne_zero]
            ring
        _ ≤ 2 ^ 52 * 2 ^ t :=
            mul_le_mul_of_nonneg_left (zpow_le_zpow_right₀ one_le_two (by omega)) (by norm_num)
        _ ≤ m * 2 ^ t := mul_le_mul_of_nonneg_right hmq (two_zpow_pos t).le
    exact absurd hlt hsmaller.not_gt

end Representable

namespace Binary64

theorem Canonical.representable_magnitude {x : Binary64} (h : x.Canonical) :
    Representable x.magnitude := by
  refine ⟨x.significand, x.exponent, ?_, h.le_exponent, h.exponent_le, ?_⟩
  · rw [Nat.abs_cast]
    exact_mod_cast h.significand_lt
  · rw [magnitude, Int.cast_natCast]

/-- A smaller double has more places. -/
theorem Canonical.exponent_lt {x : Binary64} (h : x.Canonical) {e : ℤ} (he : -1074 < e)
    (hsmall : x.magnitude < 2 ^ 52 * 2 ^ e) : x.exponent < e := by
  by_contra hexp
  have hwhole : (2 ^ 52 : ℚ) ≤ x.significand := by
    exact_mod_cast h.normal_or_least.resolve_right fun heq => by omega
  have hpow : (2 : ℚ) ^ e ≤ 2 ^ x.exponent := zpow_le_zpow_right₀ one_le_two (not_lt.mp hexp)
  have hle : (2 ^ 52 * 2 ^ e : ℚ) ≤ x.magnitude :=
    mul_le_mul hwhole hpow (two_zpow_pos e).le (Nat.cast_nonneg _)
  exact absurd hsmall hle.not_gt

theorem Canonical.representable {x : Binary64} (h : x.Canonical) : Representable x.value := by
  rw [value]
  split
  · exact h.representable_magnitude.neg
  · exact h.representable_magnitude

end Binary64

namespace RoundsTo

theorem neg {v r : ℚ} (h : RoundsTo v r) : RoundsTo (-v) (-r) where
  representable := h.representable.neg
  le_of_le q hq hle := by
    have := h.ge_of_ge (-q) hq.neg (by linarith)
    linarith
  ge_of_ge q hq hge := by
    have := h.le_of_le (-q) hq.neg (by linarith)
    linarith

theorem of_representable {v : ℚ} (h : Representable v) : RoundsTo v v :=
  ⟨h, fun _ _ hle => hle, fun _ _ hge => hge⟩

theorem eq_of_representable {v r : ℚ} (h : RoundsTo v r) (hv : Representable v) : r = v :=
  le_antisymm (h.ge_of_ge v hv le_rfl) (h.le_of_le v hv le_rfl)

theorem nonneg {v r : ℚ} (h : RoundsTo v r) (hv : 0 ≤ v) : 0 ≤ r := h.le_of_le 0 .zero hv

theorem abs {v r : ℚ} (h : RoundsTo v r) : RoundsTo |v| |r| := by
  rcases le_total 0 v with hv | hv
  · rwa [abs_of_nonneg hv, abs_of_nonneg (h.nonneg hv)]
  · have hr : 0 ≤ -r := h.neg.nonneg (neg_nonneg.mpr hv)
    rw [abs_of_nonpos hv, abs_of_nonpos (neg_nonneg.mp hr)]
    exact h.neg

end RoundsTo

end BleCapture.Decimal
