import BleCapture.Proofs.Device.History
import Mathlib.Algebra.BigOperators.Group.List.Basic
import Mathlib.Algebra.Order.Field.Basic
import Mathlib.Algebra.Order.Field.Rat
import Mathlib.Tactic.FieldSimp
import Mathlib.Tactic.Linarith
import Mathlib.Tactic.Ring

/-!
# The running mean in exact fractions

Every new sample moves the mean by a share of its distance, and the sum of the samples
is never kept. In exact fractions the mean is that sum divided by the number of samples
all the same: it lies between the least and the greatest sample and does not depend on
the order in which they came.
-/

namespace BleCapture

/-- Fractions, in which no update is rounded. -/
instance : Mean ℚ where
  ofSample sample := sample.toInt
  ofCount n := n

namespace SignalStats

-- ---------------------------------------------------------------------------
-- Any numbers
-- ---------------------------------------------------------------------------

section
variable {α β : Type} [Mean α] [Mean β]

/-- The statistics of samples that come one after the other. -/
def ofSamples? : List Int8 → Option (SignalStats α)
  | [] => none
  | sample :: rest => some (rest.foldl add (first sample))

theorem ofSamples?_concat (samples : List Int8) (sample : Int8) :
    (ofSamples? (samples ++ [sample]) : Option (SignalStats α)) =
      some (((ofSamples? samples).map (·.add sample)).getD (first sample)) := by
  cases samples with
  | nil => rfl
  | cons x rest => simp [ofSamples?]

theorem exists_ofSamples? {samples : List Int8} (h : samples ≠ []) :
    ∃ s : SignalStats α, ofSamples? samples = some s := by
  cases samples with
  | nil => exact absurd rfl h
  | cons x rest => exact ⟨_, rfl⟩

theorem toInt_add_least (s : SignalStats α) (sample : Int8) :
    (s.add sample).least.toInt = min s.least.toInt sample.toInt := by
  show (if sample < s.least then sample else s.least).toInt = _
  split
  · rename_i h
    exact (min_eq_right (Int8.lt_iff_toInt_lt.mp h).le).symm
  · rename_i h
    exact (min_eq_left (not_lt.mp (mt Int8.lt_iff_toInt_lt.mpr h))).symm

theorem toInt_add_greatest (s : SignalStats α) (sample : Int8) :
    (s.add sample).greatest.toInt = max s.greatest.toInt sample.toInt := by
  show (if s.greatest < sample then sample else s.greatest).toInt = _
  split
  · rename_i h
    exact (max_eq_right (Int8.lt_iff_toInt_lt.mp h).le).symm
  · rename_i h
    exact (max_eq_left (not_lt.mp (mt Int8.lt_iff_toInt_lt.mpr h))).symm

/-- Statistics that differ in the numbers of the mean at most. -/
structure Matches (s : SignalStats α) (t : SignalStats β) : Prop where
  least : s.least = t.least
  greatest : s.greatest = t.greatest
  count : s.count = t.count

theorem Matches.add {s : SignalStats α} {t : SignalStats β} (h : s.Matches t) (sample : Int8) :
    (s.add sample).Matches (t.add sample) := by
  obtain ⟨hleast, hgreatest, hcount⟩ := h
  constructor
  · simp only [SignalStats.add, hleast]
  · simp only [SignalStats.add, hgreatest]
  · simp only [SignalStats.add, hcount]

theorem matches_ofSamples? {samples : List Int8} {s : SignalStats α} {t : SignalStats β}
    (hs : ofSamples? samples = some s) (ht : ofSamples? samples = some t) : s.Matches t := by
  induction samples using List.reverseRecOn generalizing s t with
  | nil => cases hs
  | append_singleton samples sample ih =>
    rw [ofSamples?_concat] at hs ht
    obtain rfl := Option.some.inj hs
    obtain rfl := Option.some.inj ht
    cases samples with
    | nil => exact ⟨rfl, rfl, rfl⟩
    | cons x rest => exact (ih rfl rfl).add sample

end

-- ---------------------------------------------------------------------------
-- Fractions
-- ---------------------------------------------------------------------------

/-- The mean is the sum of the samples divided by their number, and in their range. -/
structure Averages (s : SignalStats ℚ) (samples : List Int8) : Prop where
  nonempty : samples ≠ []
  count : s.count = samples.length
  mean : s.mean = ((samples.map Int8.toInt).sum : ℤ) / (samples.length : ℚ)
  least_le : (s.least.toInt : ℚ) ≤ s.mean
  le_greatest : s.mean ≤ s.greatest.toInt

theorem averages_first (sample : Int8) : (first sample : SignalStats ℚ).Averages [sample] where
  nonempty := List.cons_ne_nil _ _
  count := rfl
  mean := by
    show ((sample.toInt : ℤ) : ℚ) = _
    simp
  least_le := le_refl _
  le_greatest := le_refl _

/-- A step of an `n`-th of the way ends between where it starts and what it goes to. -/
theorem step_between (m x : ℚ) {n : ℚ} (hn : 1 ≤ n) :
    min m x ≤ m + (x - m) / n ∧ m + (x - m) / n ≤ max m x := by
  have hpos : 0 ≤ n := zero_le_one.trans hn
  rcases le_total m x with h | h
  · have hnonneg := div_nonneg (sub_nonneg.mpr h) hpos
    have hle := div_le_self (sub_nonneg.mpr h) hn
    rw [min_eq_left h, max_eq_right h]
    constructor <;> linarith
  · have hnonneg := div_nonneg (sub_nonneg.mpr h) hpos
    have hle := div_le_self (sub_nonneg.mpr h) hn
    have hback : (x - m) / n = -((m - x) / n) := by rw [← neg_div, neg_sub]
    rw [min_eq_right h, max_eq_left h, hback]
    constructor <;> linarith

/-- The mean of `n` numbers with the sum `t` takes in one more. -/
theorem step_mean (t x : ℚ) {n : ℕ} (hn : 0 < n) :
    t / n + (x - t / n) / (n + 1 : ℕ) = (t + x) / (n + 1 : ℕ) := by
  have hn : (n : ℚ) ≠ 0 := by exact_mod_cast hn.ne'
  have hnext : (n : ℚ) + 1 ≠ 0 := by positivity
  push_cast
  field_simp
  ring

theorem Averages.add {s : SignalStats ℚ} {samples : List Int8} (h : s.Averages samples)
    (sample : Int8) : (s.add sample).Averages (samples ++ [sample]) := by
  have hpos : 0 < samples.length := List.length_pos_of_ne_nil h.nonempty
  have hmean : (s.add sample).mean =
      s.mean + ((sample.toInt : ℚ) - s.mean) / ((samples.length + 1 : ℕ) : ℚ) := by
    rw [← h.count]
    rfl
  have hone : (1 : ℚ) ≤ ((samples.length + 1 : ℕ) : ℚ) := by exact_mod_cast Nat.le_add_left 1 _
  obtain ⟨hlow, hhigh⟩ := step_between s.mean sample.toInt hone
  constructor
  · exact List.append_ne_nil_of_right_ne_nil _ (List.cons_ne_nil _ _)
  · show s.count + 1 = _
    rw [h.count, List.length_append, List.length_singleton]
  · rw [hmean, h.mean, step_mean _ _ hpos, List.map_append, List.sum_append, List.map_singleton,
      List.sum_singleton, Int.cast_add, List.length_append, List.length_singleton]
  · rw [toInt_add_least, Int.cast_min, hmean]
    exact (min_le_min_right _ h.least_le).trans hlow
  · rw [toInt_add_greatest, Int.cast_max, hmean]
    exact hhigh.trans (max_le_max_right _ h.le_greatest)

theorem averages_ofSamples? {samples : List Int8} {s : SignalStats ℚ}
    (h : ofSamples? samples = some s) : s.Averages samples := by
  induction samples using List.reverseRecOn generalizing s with
  | nil => cases h
  | append_singleton samples sample ih =>
    rw [ofSamples?_concat] at h
    obtain rfl := Option.some.inj h
    cases samples with
    | nil => exact averages_first sample
    | cons x rest => exact (ih rfl).add sample

end SignalStats

-- ---------------------------------------------------------------------------
-- Devices
-- ---------------------------------------------------------------------------

theorem Device.signal_foldl_observe (d : Device) (ss : List Sighting) :
    (ss.foldl observe d).signal = (ss.map Sighting.rssi).foldl SignalStats.add d.signal := by
  induction ss generalizing d with
  | nil => rfl
  | cons s rest ih => exact ih (d.observe s)

/-- The statistics of a device are those of its samples, and of nothing else. -/
theorem Device.signal_ofHistory? (ss : List Sighting) :
    (ofHistory? ss).map signal = SignalStats.ofSamples? (ss.map Sighting.rssi) := by
  cases ss with
  | nil => rfl
  | cons s rest => exact congrArg some (signal_foldl_observe (ofSighting s) rest)

namespace DeviceTable

/-- The samples of one address, in their order. -/
def samplesOf (a : Address) (ss : List Sighting) : List Int8 :=
  (sightingsOf a ss).map Sighting.rssi

/-- The record of an address keeps the statistics of its samples. In fractions their mean
is the sum of the samples divided by the number of packets, and lies between the least
and the greatest sample. The same samples in another order have the same mean. -/
theorem mean_of_samplesOf (ss : List Sighting) (a : Address) (hseen : samplesOf a ss ≠ []) :
    ∃ (d : Device) (exact : SignalStats ℚ),
      (ofSightings ss).get? a = some d ∧
      SignalStats.ofSamples? (samplesOf a ss) = some d.signal ∧
      SignalStats.ofSamples? (samplesOf a ss) = some exact ∧
      exact.Matches d.signal ∧
      exact.mean = (((samplesOf a ss).map Int8.toInt).sum : ℤ) / (d.packetCount : ℚ) ∧
      (d.signal.least.toInt : ℚ) ≤ exact.mean ∧ exact.mean ≤ d.signal.greatest.toInt ∧
      ∀ ss', (samplesOf a ss').Perm (samplesOf a ss) →
        ∃ exact' : SignalStats ℚ, SignalStats.ofSamples? (samplesOf a ss') = some exact' ∧
          exact'.mean = exact.mean := by
  have hstats : ((ofSightings ss).get? a).map Device.signal =
      SignalStats.ofSamples? (samplesOf a ss) := by
    rw [get?_ofSightings]
    exact Device.signal_ofHistory? _
  obtain ⟨signal, hsome⟩ : ∃ signal : SignalStats Float,
      SignalStats.ofSamples? (samplesOf a ss) = some signal :=
    SignalStats.exists_ofSamples? hseen
  obtain ⟨d, hd, rfl⟩ := Option.map_eq_some_iff.mp (hstats.trans hsome)
  obtain ⟨exact, hexact⟩ : ∃ exact : SignalStats ℚ,
      SignalStats.ofSamples? (samplesOf a ss) = some exact :=
    SignalStats.exists_ofSamples? hseen
  have haverages := SignalStats.averages_ofSamples? hexact
  have hmatches := SignalStats.matches_ofSamples? hexact hsome
  have hcount : d.packetCount = (samplesOf a ss).length :=
    hmatches.count.symm.trans haverages.count
  refine ⟨d, exact, hd, hsome, hexact, hmatches, ?_, ?_, ?_, ?_⟩
  · rw [hcount, haverages.mean]
  · rw [← hmatches.least]
    exact haverages.least_le
  · rw [← hmatches.greatest]
    exact haverages.le_greatest
  · intro ss' hperm
    have hseen' : samplesOf a ss' ≠ [] := fun h => hseen (List.nil_perm.mp (h ▸ hperm))
    obtain ⟨exact', hexact'⟩ : ∃ exact' : SignalStats ℚ,
        SignalStats.ofSamples? (samplesOf a ss') = some exact' :=
      SignalStats.exists_ofSamples? hseen'
    refine ⟨exact', hexact', ?_⟩
    rw [(SignalStats.averages_ofSamples? hexact').mean, haverages.mean,
      (hperm.map Int8.toInt).sum_eq, hperm.length_eq]

/-- Three samples of one device with one of another between them, and the same sightings
from the last to the first. -/
theorem mean_of_samplesOf_interleaved :
    let beacon (last : UInt8) (rssi : Int8) : Sighting :=
      { address := ⟨0, 0, 0, 0, 0, last⟩, addressType := .publicAddress, type := .connectable,
        rssi, fields := {}, time := ⟨0⟩ }
    let ss := [beacon 1 (-60), beacon 2 (-20), beacon 1 (-70), beacon 1 (-66)]
    let a : Address := ⟨0, 0, 0, 0, 0, 1⟩
    samplesOf a ss ≠ [] ∧ (samplesOf a ss.reverse).Perm (samplesOf a ss) ∧
      ∃ (d : Device) (exact exact' : SignalStats ℚ),
        (ofSightings ss).get? a = some d ∧ d.packetCount = 3 ∧
        SignalStats.ofSamples? (samplesOf a ss) = some exact ∧ exact.mean = -196 / 3 ∧
        SignalStats.ofSamples? (samplesOf a ss.reverse) = some exact' ∧
        exact'.mean = -196 / 3 := by
  intro beacon ss a
  have hseen : samplesOf a ss ≠ [] := by decide
  have hperm : (samplesOf a ss.reverse).Perm (samplesOf a ss) := by decide
  obtain ⟨d, exact, hd, -, hexact, -, hmean, -, -, hreorder⟩ := mean_of_samplesOf ss a hseen
  obtain ⟨exact', hexact', hsame⟩ := hreorder ss.reverse hperm
  have hcount : d.packetCount = 3 := by
    obtain rfl := Option.some.inj hd
    rfl
  have hsum : ((samplesOf a ss).map Int8.toInt).sum = -196 := by decide
  have hvalue : exact.mean = -196 / 3 := by
    rw [hmean, hsum, hcount]
    norm_num
  exact ⟨hseen, hperm, d, exact, exact', hd, hcount, hexact, hvalue, hexact', hsame.trans hvalue⟩

end DeviceTable

end BleCapture
