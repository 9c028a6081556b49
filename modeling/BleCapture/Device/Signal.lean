import BleCapture.Mean

/-!
# Signal strength statistics

Least, greatest and mean sample. The mean is updated sample by sample and
never recomputed from a sum.
-/

namespace BleCapture

structure SignalStats (α : Type) where
  least : Int8
  greatest : Int8
  mean : α
  count : Nat
  deriving Repr

namespace SignalStats

variable {α : Type} [Mean α]

def first (sample : Int8) : SignalStats α :=
  ⟨sample, sample, Mean.ofSample sample, 1⟩

/-- Moves the mean by the share of the new sample in its distance from it. -/
def add (s : SignalStats α) (sample : Int8) : SignalStats α where
  least := if sample < s.least then sample else s.least
  greatest := if s.greatest < sample then sample else s.greatest
  mean := s.mean + (Mean.ofSample sample - s.mean) / Mean.ofCount (s.count + 1)
  count := s.count + 1

end SignalStats

end BleCapture
