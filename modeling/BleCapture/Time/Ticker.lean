import BleCapture.Time.Timestamp

/-!
# Status ticker

Decides when the next status report is due. A report covers the window since
the one before it; its rate is the packets of the window over its length.
-/

namespace BleCapture

structure Window where
  packets : Nat
  elapsed : Duration
  deriving DecidableEq, Repr

/-- Packets per second; an empty window has rate zero. -/
def Window.rate {α : Type} [Mean α] (w : Window) : α :=
  if w.elapsed.nanos = 0 then Mean.ofCount 0 else Mean.ofCount w.packets / w.elapsed.inSeconds

structure Ticker where
  interval : Duration
  lastReport : Instant
  lastTotal : Nat
  deriving DecidableEq, Repr

namespace Ticker

/-- The first report is due one interval after `start`. -/
def startingAt (interval : Duration) (start : Instant) : Ticker :=
  ⟨interval, start, 0⟩

/-- No report is due any more when the clock ends before the interval does. Nobody
can wait for such a report. -/
def nextDue (t : Ticker) : Option Instant :=
  t.lastReport.after? t.interval

/-- Reports the window that ends at `now` once the interval has passed, and
begins the next one there. An instant before the last report counts as no time
passed, and a total below the last one as no packets. -/
def tick (t : Ticker) (now : Instant) (total : Nat) : Option Window × Ticker :=
  let elapsed := now.since t.lastReport
  if elapsed.nanos < t.interval.nanos then (none, t)
  else (some ⟨total - t.lastTotal, elapsed⟩, { t with lastReport := now, lastTotal := total })

end Ticker

end BleCapture
