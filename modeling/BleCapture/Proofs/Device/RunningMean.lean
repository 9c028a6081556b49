import BleCapture.Proofs.Decimal.Arithmetic
import BleCapture.Proofs.Device.Signal
import Mathlib.Algebra.Order.Archimedean.Basic

/-!
# The running mean in doubles

Every operation of an update is rounded, yet the mean never leaves the range of the
samples: it moves towards a new sample by at most half of their distance, and the
double at the end of a step of that length is not beyond the sample.
-/

namespace BleCapture

open Decimal

namespace Decimal.RoundsTo

/-- Half of a rounded positive difference does not round to more than the exact
difference. -/
theorem half_difference_le {a x δ q n : ℚ} (ha : Representable a) (hx : Representable x)
    (hδ : RoundsTo (x - a) δ) (hq : RoundsTo (δ / n) q) (hn : 2 ≤ n) (hle : a ≤ x)
    (hsmall : x - a ≤ 2 ^ (900 : ℤ)) : q ≤ x - a := by
  rcases hle.eq_or_lt with rfl | hlt
  · have hzero : δ = 0 := by
      rw [sub_self] at hδ
      exact hδ.eq_of_representable .zero
    rw [hzero, zero_div] at hq
    rw [hq.eq_of_representable .zero, sub_self]
  · have hpos : 0 < x - a := sub_pos.mpr hlt
    -- The difference is a whole number of least doubles, hence no less than one.
    have hunit : (2 : ℚ) ^ (-1074 : ℤ) ≤ x - a := by
      obtain ⟨i, hi⟩ := ha.exists_units
      obtain ⟨j, hj⟩ := hx.exists_units
      have hunits : x - a = ((j - i : ℤ) : ℚ) * 2 ^ (-1074 : ℤ) := by
        rw [hi, hj, Int.cast_sub, sub_mul]
      rw [hunits] at hpos ⊢
      have hwhole : (0 : ℤ) < j - i := by
        exact_mod_cast (mul_pos_iff_of_pos_right (two_zpow_pos (-1074))).mp hpos
      exact le_mul_of_one_le_left (two_zpow_pos (-1074)).le (by exact_mod_cast hwhole)
    obtain ⟨k, hlow, hhigh⟩ := exists_mem_Ico_zpow hpos one_lt_two
    have hk : -1074 ≤ k := by
      have := (zpow_lt_zpow_iff_right₀ (one_lt_two (α := ℚ))).mp (hunit.trans_lt hhigh)
      omega
    have hk' : k ≤ 900 := (zpow_le_zpow_iff_right₀ (one_lt_two (α := ℚ))).mp (hlow.trans hsmall)
    have hδle : δ ≤ 2 ^ (k + 1) := hδ.ge_of_ge _ (.two_zpow (by omega) (by omega)) hhigh.le
    have hhalf : δ / n ≤ 2 ^ k := by
      rw [div_le_iff₀ (two_pos.trans_le hn)]
      calc δ ≤ 2 ^ k * 2 := by rwa [← zpow_add_one₀ two_ne_zero]
        _ ≤ 2 ^ k * n := mul_le_mul_of_nonneg_left hn (two_zpow_pos k).le
    exact (hq.ge_of_ge _ (.two_zpow hk (by omega)) hhalf).trans hlow

/-- A step towards a greater number ends between the two. -/
theorem step_up {a x δ q r n : ℚ} (ha : Representable a) (hx : Representable x)
    (hδ : RoundsTo (x - a) δ) (hq : RoundsTo (δ / n) q) (hr : RoundsTo (a + q) r) (hn : 2 ≤ n)
    (hle : a ≤ x) (hsmall : x - a ≤ 2 ^ (900 : ℤ)) : a ≤ r ∧ r ≤ x := by
  have hqle := half_difference_le ha hx hδ hq hn hle hsmall
  have hqpos : 0 ≤ q := hq.nonneg (div_nonneg (hδ.nonneg (sub_nonneg.mpr hle)) (by linarith))
  exact ⟨hr.le_of_le a ha (by linarith), hr.ge_of_ge x hx (by linarith)⟩

/-- A step ends between where it starts and what it goes to. -/
theorem step {a x δ q r n : ℚ} (ha : Representable a) (hx : Representable x)
    (hδ : RoundsTo (x - a) δ) (hq : RoundsTo (δ / n) q) (hr : RoundsTo (a + q) r) (hn : 2 ≤ n)
    (hsmall : |x - a| ≤ 2 ^ (900 : ℤ)) : min a x ≤ r ∧ r ≤ max a x := by
  rcases le_total a x with hle | hle
  · rw [min_eq_left hle, max_eq_right hle]
    exact step_up ha hx hδ hq hr hn hle ((le_abs_self _).trans hsmall)
  · rw [min_eq_right hle, max_eq_left hle]
    have hδ' : RoundsTo (-x - -a) (-δ) := by
      rw [neg_sub_neg, ← neg_sub]
      exact hδ.neg
    have hq' : RoundsTo (-δ / n) (-q) := neg_div n δ ▸ hq.neg
    have hr' : RoundsTo (-a + -q) (-r) := neg_add a q ▸ hr.neg
    have hsmall' : -x - -a ≤ 2 ^ (900 : ℤ) := by
      rw [neg_sub_neg, ← neg_sub]
      exact (neg_le_abs _).trans hsmall
    obtain ⟨hlow, hhigh⟩ := step_up ha.neg hx.neg hδ' hq' hr' hn (neg_le_neg hle) hsmall'
    exact ⟨neg_le_neg_iff.mp hhigh, neg_le_neg_iff.mp hlow⟩

end Decimal.RoundsTo

namespace SignalStats

/-- The mean is a finite number between the least and the greatest sample. -/
def MeanInRange (s : SignalStats Float) : Prop :=
  ∃ x, Binary64.ofFloat? s.mean = some x ∧
    (s.least.toInt : ℚ) ≤ x.value ∧ x.value ≤ s.greatest.toInt

theorem abs_toInt_le (sample : Int8) : |(sample.toInt : ℚ)| ≤ 128 := by
  have hlow := sample.le_toInt
  have hhigh := sample.toInt_lt
  rw [abs_le]
  constructor
  · exact_mod_cast hlow
  · exact_mod_cast hhigh.le

theorem ofFloat?_ofSample (sample : Int8) :
    ∃ x, Binary64.ofFloat? (Mean.ofSample sample) = some x ∧ x.value = sample.toInt := by
  refine Binary64.ofFloat?_ofInt (lt_of_le_of_lt ?_ (show (128 : ℤ) < 2 ^ 53 by decide))
  exact_mod_cast abs_toInt_le sample

theorem ofFloat?_ofCount {n : ℕ} (hlow : 2 ≤ n) (hhigh : n < 2 ^ 64) :
    ∃ x, Binary64.ofFloat? (Mean.ofCount n) = some x ∧ 2 ≤ x.value := by
  obtain ⟨x, hx, -, hrounds⟩ := Binary64.ofFloat?_toFloat n.toUInt64
  refine ⟨x, hx, hrounds.le_of_le 2 ?_ ?_⟩
  · exact_mod_cast Representable.intCast (n := 2) (by decide)
  · have hword : n.toUInt64.toNat = n := Nat.mod_eq_of_lt hhigh
    rw [hword]
    exact_mod_cast hlow

theorem meanInRange_first (sample : Int8) : (first sample : SignalStats Float).MeanInRange := by
  obtain ⟨x, hx, hvalue⟩ := ofFloat?_ofSample sample
  exact ⟨x, hx, hvalue.ge, hvalue.le⟩

/-- One update keeps the mean in range, as long as the count fits its word. -/
theorem MeanInRange.add {s : SignalStats Float} (h : s.MeanInRange) (sample : Int8)
    (hlow : 1 ≤ s.count) (hhigh : s.count + 1 < 2 ^ 64) : (s.add sample).MeanInRange := by
  obtain ⟨a, ha, hleast, hgreatest⟩ := h
  obtain ⟨x, hx, hsample⟩ := ofFloat?_ofSample sample
  obtain ⟨n, hn, htwo⟩ := ofFloat?_ofCount (Nat.succ_le_succ hlow) hhigh
  have hrep : Representable 256 := by
    exact_mod_cast Representable.intCast (n := 256) (by decide)
  have habs : |a.value| ≤ 128 := by
    have hlow := (abs_le.mp (abs_toInt_le s.least)).1
    have hhigh := (abs_le.mp (abs_toInt_le s.greatest)).2
    exact abs_le.mpr ⟨by linarith, by linarith⟩
  have hrange : |x.value - a.value| ≤ 256 := by
    have hsampleAbs : |x.value| ≤ 128 := hsample ▸ abs_toInt_le sample
    have := abs_sub x.value a.value
    linarith
  obtain ⟨δ, hδ, hδrounds⟩ := Binary64.ofFloat?_sub hx ha (le_two_zpow (n := 9) (by linarith) (by decide))
  have hδn : |δ.value / n.value| ≤ 256 := by
    rw [abs_div]
    have hone : 1 ≤ |n.value| := (one_le_two.trans htwo).trans (le_abs_self _)
    exact (div_le_self (abs_nonneg _) hone).trans (hδrounds.abs.ge_of_ge _ hrep hrange)
  obtain ⟨q, hq, -, hqrounds, -⟩ := Binary64.ofFloat?_div hδ hn (two_pos.trans_le htwo).ne'
    (le_two_zpow (n := 9) (by linarith) (by decide))
  have hsum : |a.value + q.value| ≤ 512 := by
    have := hqrounds.abs.ge_of_ge _ hrep hδn
    have := abs_add_le a.value q.value
    linarith
  obtain ⟨r, hr, hrrounds⟩ := Binary64.ofFloat?_add ha hq (le_two_zpow (n := 9) (by linarith) (by decide))
  obtain ⟨hrlow, hrhigh⟩ := RoundsTo.step (Binary64.canonical_of_ofFloat? ha).representable
    (Binary64.canonical_of_ofFloat? hx).representable hδrounds hqrounds hrrounds htwo
    (le_two_zpow (n := 9) (by linarith) (by decide))
  refine ⟨r, hr, ?_, ?_⟩
  · rw [toInt_add_least, Int.cast_min, ← hsample]
    exact (min_le_min_right _ hleast).trans hrlow
  · rw [toInt_add_greatest, Int.cast_max, ← hsample]
    exact hrhigh.trans (max_le_max_right _ hgreatest)

end SignalStats

/-- The mean of a device stays in the range of its samples, update by update. -/
theorem Device.meanInRange_ofHistory? {ss : List Sighting} {d : Device}
    (h : ofHistory? ss = some d) (hcount : ss.length < 2 ^ 64) : d.signal.MeanInRange := by
  induction ss using List.reverseRecOn generalizing d with
  | nil => cases h
  | append_singleton past s ih =>
    rw [ofHistory?_concat] at h
    rw [List.length_append, List.length_singleton] at hcount
    rcases hpast : ofHistory? past with _ | before
    · rw [hpast] at h
      obtain rfl := Option.some.inj h
      exact SignalStats.meanInRange_first s.rssi
    · rw [hpast] at h
      obtain rfl := Option.some.inj h
      have hlength : before.signal.count = past.length := (summarizes_ofHistory? hpast).packetCount
      have hsome : past ≠ [] := by
        rintro rfl
        cases hpast
      exact (ih hpast (Nat.lt_of_succ_lt hcount)).add s.rssi
        (hlength ▸ List.length_pos_of_ne_nil hsome) (hlength ▸ hcount)

end BleCapture
