import BleCapture.Proofs.Text.Hex
import BleCapture.Time.Calendar
import Mathlib.Algebra.Group.Nat.Defs

/-!
# Which times have a date, and how wide a printed time is

The years that have dates begin and end at known seconds. Months, days and the parts
of a clock take two digits, and years up to 9999 take four, so all times of those
years have texts of one length.
-/

namespace BleCapture

namespace Text

theorem length_padded_decimal {k n : Nat} (hk : 0 < k) (h : n < 10 ^ k) :
    (padded k (decimal n)).length = k := by
  have hle : (decimal n).length ≤ k := (Nat.length_toDigits_le_iff (by decide) hk).mpr h
  simp only [padded, List.length_append, List.length_replicate]
  omega

theorem isDigit_of_mem_padded_decimal {k n : Nat} {c : Char} (h : c ∈ padded k (decimal n)) :
    c.isDigit := by
  rcases List.mem_append.mp h with h | h
  · obtain rfl := List.eq_of_mem_replicate h
    rfl
  · exact Nat.isDigit_of_mem_toDigits (by decide) (by decide) h

theorem toNat_le_of_isDigit {c : Char} (h : c.isDigit) : c.toNat ≤ 0x7F := by
  simp only [Char.isDigit, Bool.and_eq_true, decide_eq_true_eq, UInt32.le_iff_toNat_le] at h
  exact Nat.le_trans h.2 (by decide)

end Text

/-- Months and days have two digits. -/
theorem Date.ofDays_lt (days : Int) : (ofDays days).month < 10 ^ 2 ∧ (ofDays days).day < 10 ^ 2 := by
  have hera : ((days + 719468) % 146097).toNat < 146097 := by omega
  simp only [ofDays]
  generalize ((days + 719468) % 146097).toNat = d at hera
  -- A coarse bound on the day of the year is enough.
  have hyear : d - (365 * ((d - d / 1460 + d / 36524 - d / 146096) / 365) +
      (d - d / 1460 + d / 36524 - d / 146096) / 365 / 4 -
      (d - d / 1460 + d / 36524 - d / 146096) / 365 / 100) < 1000 := by
    generalize hy : (d - d / 1460 + d / 36524 - d / 146096) / 365 = y
    omega
  generalize d - (365 * ((d - d / 1460 + d / 36524 - d / 146096) / 365) +
      (d - d / 1460 + d / 36524 - d / 146096) / 365 / 4 -
      (d - d / 1460 + d / 36524 - d / 146096) / 365 / 100) = n at hyear ⊢
  constructor
  · split <;> omega
  · omega

/-- The year within its era of 400, with the months from January on in the year that
they begin. The first 306 days of an era are in the year that it begins in, and its
last sixty in the year that the next era begins in. -/
theorem Date.year_ofDays (days : Int) :
    ∃ yearOfEra : Nat, yearOfEra ≤ 400 ∧
      (ofDays days).year = yearOfEra + (days + 719468) / 146097 * 400 ∧
      (yearOfEra = 0 ↔ (days + 719468) % 146097 < 306) ∧
      (yearOfEra = 400 ↔ 146037 ≤ (days + 719468) % 146097) := by
  have hera : ((days + 719468) % 146097).toNat < 146097 := by omega
  simp only [ofDays]
  generalize he : ((days + 719468) % 146097).toNat = d at hera ⊢
  generalize hy : (d - d / 1460 + d / 36524 - d / 146096) / 365 = y
  generalize hn : d - (365 * y + y / 4 - y / 100) = n
  have hyear : y ≤ 399 := by omega
  have hfirst : y = 0 ↔ d < 365 := by omega
  have hlast : 146037 ≤ d → y = 399 := by omega
  have hday : n ≤ 366 := by omega
  have hmonth : (if (5 * n + 2) / 153 < 10 then (5 * n + 2) / 153 + 3
      else (5 * n + 2) / 153 - 9) ≤ 2 ↔ 306 ≤ n := by
    split <;> omega
  simp only [hmonth]
  refine ⟨y + (if 306 ≤ n then 1 else 0), ?_⟩
  split <;> omega

namespace Timestamp

/-- The first second of the year -9999, and the first one after the year 9999. -/
theorem hasDate_iff {t : Timestamp} :
    t.HasDate ↔ -377705116800 ≤ t.seconds ∧ t.seconds < 253402300800 := by
  obtain ⟨yearOfEra, hle, hyear, hfirst, hlast⟩ := Date.year_ofDays (t.seconds / 86400)
  have hdate : t.date = Date.ofDays (t.seconds / 86400) := rfl
  rw [HasDate, hdate, hyear]
  omega

/-- The years that are printed with four digits and no sign. -/
def FourDigitYear (t : Timestamp) : Prop := 0 ≤ t.date.year ∧ t.date.year ≤ 9999

instance : DecidablePred FourDigitYear :=
  fun t => inferInstanceAs (Decidable (0 ≤ t.date.year ∧ t.date.year ≤ 9999))

theorem secondOfDay_lt (t : Timestamp) : t.secondOfDay < 86400 := by
  simp only [secondOfDay]
  omega

theorem toList_timeOfDay (t : Timestamp) :
    t.timeOfDay.toList = Text.padded 2 (Text.decimal (t.secondOfDay / 3600)) ++
      ':' :: Text.padded 2 (Text.decimal (t.secondOfDay / 60 % 60)) ++
      ':' :: Text.padded 2 (Text.decimal (t.secondOfDay % 60)) := by
  rw [timeOfDay, String.toList_ofList]
  rfl

theorem toList_dateTime (t : Timestamp) :
    t.dateTime.toList =
      (if t.date.year < 0 then ['-'] else []) ++
        Text.padded 4 (Text.decimal t.date.year.natAbs) ++
        '-' :: Text.padded 2 (Text.decimal t.date.month) ++
        '-' :: Text.padded 2 (Text.decimal t.date.day) ++ ' ' :: t.timeOfDay.toList := by
  rw [dateTime, timeOfDay, String.toList_ofList, String.toList_ofList]
  rfl

/-- A time in such a year is six numbers of fixed width with separators between
them. -/
theorem dateTime_eq {t : Timestamp} (h : t.FourDigitYear) :
    t.dateTime.toList =
      Text.padded 4 (Text.decimal t.date.year.natAbs) ++
        '-' :: Text.padded 2 (Text.decimal t.date.month) ++
        '-' :: Text.padded 2 (Text.decimal t.date.day) ++
        ' ' :: (Text.padded 2 (Text.decimal (t.secondOfDay / 3600)) ++
          ':' :: Text.padded 2 (Text.decimal (t.secondOfDay / 60 % 60)) ++
          ':' :: Text.padded 2 (Text.decimal (t.secondOfDay % 60))) := by
  have hyear : ¬ t.date.year < 0 := Int.not_lt.mpr h.1
  rw [toList_dateTime, if_neg hyear, List.nil_append, toList_timeOfDay]

theorem FourDigitYear.hasDate {t : Timestamp} (h : t.FourDigitYear) : t.HasDate :=
  ⟨Int.le_trans (by decide) h.1, h.2⟩

/-- A time that has a date takes nineteen characters, and one more for the sign of its
year. -/
theorem length_dateTime_of_hasDate {t : Timestamp} (h : t.HasDate) :
    t.dateTime.toList.length = (if t.date.year < 0 then 1 else 0) + 19 := by
  have hyear : t.date.year.natAbs < 10 ^ 4 := by
    obtain ⟨hlo, hhi⟩ := h
    omega
  obtain ⟨hmonth, hday⟩ : t.date.month < 10 ^ 2 ∧ t.date.day < 10 ^ 2 := Date.ofDays_lt _
  have hclock := t.secondOfDay_lt
  have hhour : t.secondOfDay / 3600 < 10 ^ 2 := by omega
  have hminute : t.secondOfDay / 60 % 60 < 10 ^ 2 := by omega
  have hsecond : t.secondOfDay % 60 < 10 ^ 2 := by omega
  have hsign : (if t.date.year < 0 then ['-'] else []).length =
      if t.date.year < 0 then 1 else 0 := by
    split <;> rfl
  rw [toList_dateTime, toList_timeOfDay]
  simp only [List.length_append, List.length_cons, Text.length_padded_decimal (by decide) hyear,
    Text.length_padded_decimal (by decide) hmonth, Text.length_padded_decimal (by decide) hday,
    Text.length_padded_decimal (by decide) hhour, Text.length_padded_decimal (by decide) hminute,
    Text.length_padded_decimal (by decide) hsecond, hsign]

theorem length_dateTime {t : Timestamp} (h : t.FourDigitYear) : t.dateTime.toList.length = 19 := by
  rw [length_dateTime_of_hasDate h.hasDate, if_neg (Int.not_lt.mpr h.1)]

/-- Of the times that have a date, those before the year zero have no RFC 3339 form. -/
theorem rfc3339_eq_empty_iff {t : Timestamp} (h : t.HasDate) :
    t.rfc3339 = "" ↔ t.date.year < 0 := by
  unfold rfc3339
  split
  · rename_i hyear
    rw [String.ofList_eq_empty_iff]
    exact ⟨fun hnil => absurd hnil (List.append_ne_nil_of_right_ne_nil _ (List.cons_ne_nil _ _)),
      fun hlt => absurd hlt (Int.not_lt.mpr hyear.1)⟩
  · rename_i hyear
    exact ⟨fun _ => Int.not_le.mp fun hle => hyear ⟨hle, h.2⟩, fun _ => rfl⟩

theorem ascii_dateTime {t : Timestamp} (h : t.FourDigitYear) :
    ∀ c ∈ t.dateTime.toList, c.toNat ≤ 0x7F := by
  intro c hc
  rw [dateTime_eq h] at hc
  simp only [List.mem_append, List.mem_cons] at hc
  have hnumber : ∀ {k n : Nat}, c ∈ Text.padded k (Text.decimal n) → c.toNat ≤ 0x7F :=
    fun hmem => Text.toNat_le_of_isDigit (Text.isDigit_of_mem_padded_decimal hmem)
  rcases hc with ((hc | rfl | hc) | rfl | hc) | rfl | (hc | rfl | hc) | rfl | hc
  all_goals first | exact hnumber hc | decide

/-- The bytes of a printed time are as many as its characters. -/
theorem length_encode_dateTime {t : Timestamp} (h : t.FourDigitYear) :
    (Text.Utf8.encode t.dateTime.toList).length = 19 := by
  rw [Text.encode_of_ascii (ascii_dateTime h), List.length_map, length_dateTime h]

end Timestamp

end BleCapture
