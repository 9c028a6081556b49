import BleCapture.Proofs.Decimal.Halves
import BleCapture.Proofs.Device.RunningMean
import BleCapture.Proofs.Export.Agreement
import BleCapture.Proofs.Export.TenthsText

/-!
# The average in the JSON and the CSV report

Both reports print the average with one decimal place. The CSV report rounds the
double itself, with halves to even. The JSON report rounds ten times the double, which
is rounded to a double first, with halves away from zero, and prints a tenth of that in
the shortest way. The texts differ in the last place when ten times the average is, or
becomes, a half.
-/

namespace BleCapture

open Decimal

-- ---------------------------------------------------------------------------
-- Texts of tenths
-- ---------------------------------------------------------------------------

/-- A number of tenths with its sign, as both reports write it. -/
def tenthsText (negative : Bool) (n : ℕ) : List Char :=
  (if negative then ['-'] else []) ++ placed 1 n

theorem tenthsText_inj {negative : Bool} {m n : ℕ} :
    tenthsText negative m = tenthsText negative n ↔ m = n :=
  ⟨fun h => placed_one_inj (List.append_cancel_left h), fun h => h ▸ rfl⟩

-- ---------------------------------------------------------------------------
-- The two roundings
-- ---------------------------------------------------------------------------

theorem nearest_scaled (tie : Tie) (places : ℕ) (x : Binary64) :
    Nearest tie (x.magnitude * 10 ^ places) (x.scaled tie places) := by
  have h := nearest_roundDiv tie (x.numerator * Nat.pow 10 places) x.denominator_pos
  have hvalue : ((x.numerator * Nat.pow 10 places : ℕ) / x.denominator : ℚ) =
      x.magnitude * 10 ^ places := by
    have hpow : ((Nat.pow 10 places : ℕ) : ℚ) = 10 ^ places := by exact_mod_cast rfl
    rw [x.magnitude_eq_div, Nat.cast_mul, mul_div_right_comm, hpow]
  rwa [hvalue] at h

section
variable {f : Float} {x : Binary64}

theorem fixed_one (hf : Binary64.ofFloat? f = some x) :
    fixed 1 f = String.ofList (tenthsText x.negative (x.scaled .toEven 1)) := by
  rw [fixed, hf]
  rfl

theorem number_roundedMean (hf : Binary64.ofFloat? f = some x) (hrange : |x.value| ≤ 128) :
    ∃ r, Binary64.ofFloat? (f * 10) = some r ∧
      RoundsTo (x.magnitude * 10) r.magnitude ∧
      Json.number (JsonReport.roundedMean f) = tenthsText x.negative (r.scaled .up 0) := by
  have habs : |x.value * (Binary64.mk false (5 * 2 ^ 50) (-49)).value| = x.magnitude * 10 := by
    rw [value_ten, abs_mul, Binary64.abs_value, abs_of_pos (by norm_num)]
  have hbound : x.magnitude * 10 ≤ 1280 := by
    rw [Binary64.abs_value] at hrange
    linarith
  obtain ⟨r, hr, hsign, hrounds⟩ := Binary64.ofFloat?_mul hf ofFloat?_ten
    (habs ▸ le_two_zpow (n := 11) (by linarith) (by decide))
  rw [Bool.xor_false] at hsign
  have hrounds' : RoundsTo (x.magnitude * 10) r.magnitude := by
    rw [← habs, ← r.abs_value]
    exact hrounds.abs
  refine ⟨r, hr, hrounds', ?_⟩
  have hrbound : r.magnitude ≤ 1280 := by
    exact_mod_cast hrounds'.ge_of_ge _ (Representable.intCast (n := 1280) (by decide))
      (by exact_mod_cast hbound)
  have hn : r.scaled .up 0 ≤ 2 ^ 40 := by
    have hge := (nearest_scaled .up 0 r).ge
    have hle : (r.scaled .up 0 : ℚ) ≤ (2 ^ 40 : ℕ) := by
      push_cast
      linarith
    exact_mod_cast hle
  have hfraction : ¬ 0 ≤ r.exponent :=
    not_le.mpr ((Binary64.canonical_of_ofFloat? hr).exponent_lt (by decide) (by norm_num; linarith))
  rw [JsonReport.roundedMean, nearestWhole, hr]
  simp only [if_neg hfraction, hsign]
  rcases x.negative with _ | _
  · exact number_tenth hn
  · exact number_neg_tenth hn

end

namespace Device

/-- What the two reports print for the average of a device: tenths rounded up from the
double of ten times the mean, and tenths rounded to even from the mean itself. -/
structure PrintsAverage (d : Device) (mean tenfold : Binary64) (json csv : List Char) : Prop where
  of_mean : Binary64.ofFloat? d.signal.mean = some mean
  of_tenfold : Binary64.ofFloat? (d.signal.mean * 10) = some tenfold
  in_json : ((JsonReport.device d).member? "rssi_avg").map Json.text = some json
  in_csv : (cellUnder CsvReport.header "RSSI (Avg)" (CsvReport.row d)).map String.toList = some csv
  json_eq : json = tenthsText mean.negative (tenfold.scaled .up 0)
  csv_eq : csv = tenthsText mean.negative (mean.scaled .toEven 1)

/-- For every history of a device, the two reports print its average, a number between
the least and the greatest sample, to one place. The texts are equal unless ten times
the mean is rounded up early; then the JSON report prints one tenth more. -/
theorem average_texts_agree_iff {ss : List Sighting} {d : Device} (h : ofHistory? ss = some d)
    (hcount : ss.length < 2 ^ 64) :
    ∃ mean tenfold json csv, d.PrintsAverage mean tenfold json csv ∧
      (d.signal.least.toInt : ℚ) ≤ mean.value ∧ mean.value ≤ d.signal.greatest.toInt ∧
      RoundsTo (mean.magnitude * 10) tenfold.magnitude ∧
      (json = csv ↔ ¬ RoundsUpEarly (mean.magnitude * 10) tenfold.magnitude) ∧
      (json ≠ csv → tenfold.scaled .up 0 = mean.scaled .toEven 1 + 1) := by
  obtain ⟨mean, hmean, hlow, hhigh⟩ := meanInRange_ofHistory? h hcount
  have hrange : |mean.value| ≤ 128 := by
    have hleast := (abs_le.mp (SignalStats.abs_toInt_le d.signal.least)).1
    have hgreatest := (abs_le.mp (SignalStats.abs_toInt_le d.signal.greatest)).2
    exact abs_le.mpr ⟨by linarith, by linarith⟩
  obtain ⟨tenfold, htenfold, hrounds, hnumber⟩ := number_roundedMean hmean hrange
  have hpositive : 0 ≤ mean.magnitude * 10 := mul_nonneg mean.magnitude_nonneg (by norm_num)
  have hsmall : mean.magnitude * 10 ≤ 2 ^ 40 := by
    rw [Binary64.abs_value] at hrange
    linarith
  have hcsv := nearest_scaled .toEven 1 mean
  have hjson := nearest_scaled .up 0 tenfold
  rw [pow_one] at hcsv
  rw [pow_zero, mul_one] at hjson
  refine ⟨mean, tenfold, _, _, ⟨hmean, htenfold, ?_, ?_, rfl, rfl⟩, hlow, hhigh, hrounds, ?_, ?_⟩
  · show some (Json.number (JsonReport.roundedMean d.signal.mean) ++ []) = _
    rw [List.append_nil, hnumber]
  · show some (fixed 1 d.signal.mean).toList = _
    rw [fixed_one hmean, String.toList_ofList]
  · rw [tenthsText_inj]
    rcases nearest_of_roundsTo hrounds hpositive hsmall hcsv hjson with ⟨hearly, hn⟩ | ⟨hlate, hn⟩
    · exact iff_of_false (hn ▸ Nat.succ_ne_self _) (not_not_intro hearly)
    · exact iff_of_true hn hlate
  · rw [Ne, tenthsText_inj]
    intro hne
    rcases nearest_of_roundsTo hrounds hpositive hsmall hcsv hjson with ⟨-, hn⟩ | ⟨-, hn⟩
    · exact hn
    · exact absurd hn hne

/-- Three samples of -60 and one of -61. The mean is -60.25, and ten times it a half. -/
def pastQuarter : List Sighting :=
  [-60, -60, -60, -61].map fun rssi =>
    { address := ⟨0, 0, 0, 0, 0, 1⟩, addressType := .publicAddress, type := .connectable, rssi,
      fields := {}, time := ⟨0⟩ }

theorem average_texts_agree_iff_past_quarter :
    ∃ d, ofHistory? pastQuarter = some d ∧ pastQuarter.length < 2 ^ 64 ∧
      ∃ mean tenfold json csv, d.PrintsAverage mean tenfold json csv ∧
        (json = csv ↔ ¬ RoundsUpEarly (mean.magnitude * 10) tenfold.magnitude) := by
  refine ⟨_, rfl, by decide, ?_⟩
  obtain ⟨mean, tenfold, json, csv, hprints, -, -, -, hagree, -⟩ :=
    average_texts_agree_iff (rfl : ofHistory? pastQuarter = some _) (by decide)
  exact ⟨mean, tenfold, json, csv, hprints, hagree⟩

theorem average_texts_differ_past_quarter :
    ∃ d, ofHistory? pastQuarter = some d ∧
      ((JsonReport.device d).member? "rssi_avg").map Json.text = some "-60.3".toList ∧
      (cellUnder CsvReport.header "RSSI (Avg)" (CsvReport.row d)).map String.toList =
        some "-60.2".toList :=
  ⟨_, rfl, by decide +kernel, by decide +kernel⟩

end Device

end BleCapture
