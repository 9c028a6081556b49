/-!
# Tallies

How often each key was seen, in ascending order of a rank. Keys that were
never seen have no entry.
-/

namespace BleCapture

/-- Counts by key, the keys in ascending order of rank. -/
abbrev Tally (κ : Type u) := List (κ × Nat)

namespace Tally

variable {κ : Type u} [DecidableEq κ]

def bump (rank : κ → Nat) (k : κ) : Tally κ → Tally κ
  | [] => [(k, 1)]
  | (k', n) :: rest =>
    if k = k' then (k', n + 1) :: rest
    else if rank k < rank k' then (k, 1) :: (k', n) :: rest
    else (k', n) :: bump rank k rest

def total (t : Tally κ) : Nat := t.foldr (fun entry n => entry.2 + n) 0

end Tally

end BleCapture
