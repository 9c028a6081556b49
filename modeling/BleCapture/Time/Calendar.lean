import BleCapture.Time.Timestamp
import BleCapture.Text.Blank
import BleCapture.Text.Number

/-!
# Calendar time

Dates of the proleptic Gregorian calendar in UTC, and the three forms in which
reports print a time. Only the years from -9999 to 9999 have dates. A capture cannot
print a time outside them and breaks off, so the texts below are those of times that
have a date.
-/

namespace BleCapture

structure Date where
  year : Int
  month : Nat
  day : Nat
  deriving DecidableEq, Repr

/-- The date a number of days after the epoch. Years are counted from March in
eras of 400, so that the leap day comes last. -/
def Date.ofDays (days : Int) : Date :=
  let z := days + 719468
  let era := z / 146097
  let dayOfEra := (z % 146097).toNat
  let yearOfEra := (dayOfEra - dayOfEra / 1460 + dayOfEra / 36524 - dayOfEra / 146096) / 365
  let dayOfYear := dayOfEra - (365 * yearOfEra + yearOfEra / 4 - yearOfEra / 100)
  let shifted := (5 * dayOfYear + 2) / 153
  let month := if shifted < 10 then shifted + 3 else shifted - 9
  { year := (yearOfEra : Int) + era * 400 + (if month ≤ 2 then 1 else 0)
    month
    day := dayOfYear - (153 * shifted + 2) / 5 + 1 }

namespace Timestamp

def secondOfDay (t : Timestamp) : Nat := (t.seconds % 86400).toNat

def date (t : Timestamp) : Date := Date.ofDays (t.seconds / 86400)

/-- The time lies in the years that have dates. -/
def HasDate (t : Timestamp) : Prop := -9999 ≤ t.date.year ∧ t.date.year ≤ 9999

instance : DecidablePred HasDate :=
  fun t => inferInstanceAs (Decidable (-9999 ≤ t.date.year ∧ t.date.year ≤ 9999))

private def twoDigits (n : Nat) : List Char := Text.padded 2 (Text.decimal n)

/-- At least four digits, after a minus sign for years before zero. -/
private def yearText (y : Int) : List Char :=
  (if y < 0 then ['-'] else []) ++ Text.padded 4 (Text.decimal y.natAbs)

private def dateText (t : Timestamp) : List Char :=
  yearText t.date.year ++ '-' :: twoDigits t.date.month ++ '-' :: twoDigits t.date.day

private def clockText (t : Timestamp) : List Char :=
  twoDigits (t.secondOfDay / 3600) ++ ':' :: twoDigits (t.secondOfDay / 60 % 60) ++
    ':' :: twoDigits (t.secondOfDay % 60)

/-- The fraction of a second without trailing zeros, empty when there is none. -/
private def fractionText (t : Timestamp) : List Char :=
  if t.subsecond = 0 then []
  else '.' :: Text.dropEndWhile (· == '0') (Text.padded 9 (Text.decimal t.subsecond))

def timeOfDay (t : Timestamp) : String := String.ofList t.clockText

def dateTime (t : Timestamp) : String := String.ofList (t.dateText ++ ' ' :: t.clockText)

/-- The form of RFC 3339, which has years 0 to 9999 only; times before them have no
text. -/
def rfc3339 (t : Timestamp) : String :=
  if 0 ≤ t.date.year ∧ t.date.year ≤ 9999 then
    String.ofList (t.dateText ++ 'T' :: t.clockText ++ t.fractionText ++ ['Z'])
  else ""

end Timestamp

end BleCapture
