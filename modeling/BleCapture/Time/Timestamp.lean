import BleCapture.Mean

/-!
# Points in time and spans

Nanoseconds throughout. A timestamp counts from the Unix epoch and may lie
before it; a span is never negative. Instants are what a clock shows that never
goes back.
-/

namespace BleCapture

def nanosPerSecond : Nat := 1000000000

/-- A span of time. -/
structure Duration where
  nanos : Nat
  deriving DecidableEq, Repr, Inhabited

namespace Duration

def ofSeconds (n : Nat) : Duration := ⟨n * nanosPerSecond⟩

def ofMillis (n : Nat) : Duration := ⟨n * 1000000⟩

def seconds (d : Duration) : Nat := d.nanos / nanosPerSecond

/-- Nanoseconds past the last whole second. -/
def subsecond (d : Duration) : Nat := d.nanos % nanosPerSecond

/-- The length in seconds. The whole seconds and the fraction are converted
separately and added. -/
def inSeconds {α : Type} [Mean α] (d : Duration) : α :=
  Mean.ofCount d.seconds + Mean.ofCount d.subsecond / Mean.ofCount nanosPerSecond

def toFloat (d : Duration) : Float := d.inSeconds

end Duration

/-- A point in time, counted from the Unix epoch. -/
structure Timestamp where
  nanos : Int
  deriving DecidableEq, Repr, Inhabited

namespace Timestamp

def ofParts (seconds : Int) (nanos : Nat) : Timestamp :=
  ⟨seconds * nanosPerSecond + nanos⟩

/-- Whole seconds, rounded down. -/
def seconds (t : Timestamp) : Int := t.nanos / nanosPerSecond

def subsecond (t : Timestamp) : Nat := (t.nanos % nanosPerSecond).toNat

/-- The span from `earlier` to `t`, empty when `t` does not come later. -/
def since (t earlier : Timestamp) : Duration := ⟨(t.nanos - earlier.nanos).toNat⟩

/-- The span since the epoch, empty for times before it. -/
def sinceEpoch (t : Timestamp) : Duration := t.since ⟨0⟩

end Timestamp

/-- The clock counts its seconds in 63 bits. -/
def Instant.limit : Nat := Nat.pow 2 63 * nanosPerSecond

/-- An offset from the zero of the clock. -/
structure Instant where
  nanos : Nat
  lt : nanos < Instant.limit
  deriving DecidableEq, Repr

namespace Instant

instance : LE Instant := ⟨fun a b => a.nanos ≤ b.nanos⟩

instance (a b : Instant) : Decidable (a ≤ b) :=
  inferInstanceAs (Decidable (a.nanos ≤ b.nanos))

def ofNanos? (n : Nat) : Option Instant :=
  if h : n < limit then some ⟨n, h⟩ else none

def zero : Instant := ⟨0, by decide⟩

/-- The instant one span later, if the clock gets that far. -/
def after? (i : Instant) (span : Duration) : Option Instant := ofNanos? (i.nanos + span.nanos)

/-- The span from `earlier` to `i`, empty when `i` does not come later. -/
def since (i earlier : Instant) : Duration := ⟨i.nanos - earlier.nanos⟩

end Instant

end BleCapture
