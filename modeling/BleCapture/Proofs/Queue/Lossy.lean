import BleCapture.Queue.Lossy
import Mathlib.Data.List.DropRight

/-!
# What a lossy queue holds

Every operation of the queue on the list of its records. A queue that records
are only put into holds the latest of them, as many as it has room for.
-/

namespace BleCapture.LossyQueue

variable {α : Type u} {capacity : Nat}

@[simp] theorem length_toList (q : LossyQueue α capacity) : q.toList.length = q.buffered :=
  q.buffered_eq.symm

theorem toList_enqueue_of_lt {q : LossyQueue α capacity} (h : q.buffered < capacity) (a : α) :
    (q.enqueue a).toList = q.toList ++ [a] := by
  simp [enqueue, h, toList]

theorem overflowed_enqueue_of_lt {q : LossyQueue α capacity} (h : q.buffered < capacity) (a : α) :
    (q.enqueue a).overflowed = q.overflowed := by
  simp [enqueue, h]

@[simp] theorem enqueued_enqueue (q : LossyQueue α capacity) (a : α) :
    (q.enqueue a).enqueued = q.enqueued + 1 := by
  unfold enqueue
  split
  · rfl
  · split <;> rfl

theorem overflowed_enqueue_of_le {q : LossyQueue α capacity} (h : capacity ≤ q.buffered) (a : α) :
    (q.enqueue a).overflowed = q.overflowed + 1 := by
  have hge : ¬ q.buffered < capacity := Nat.not_lt.mpr h
  unfold enqueue
  rw [if_neg hge]
  split <;> rfl

/-- A full queue gives up its oldest record. -/
theorem toList_enqueue_of_le {q : LossyQueue α capacity} (h : capacity ≤ q.buffered)
    (hpos : 0 < capacity) (a : α) : (q.enqueue a).toList = q.toList.tail ++ [a] := by
  have hge : ¬ q.buffered < capacity := Nat.not_lt.mpr h
  unfold enqueue
  rw [if_neg hge]
  split
  · rename_i b rest hp
    simp [toList, Fifo.toList_of_pop? hp]
  · rename_i hp
    have hnil : q.toList = [] := (Fifo.pop?_eq_none_iff _).mp hp
    have hlen := q.length_toList
    rw [hnil, List.length_nil] at hlen
    omega

/-- A record finds a free slot or takes the place of the oldest one. -/
theorem enqueue_cases (hpos : 0 < capacity) (q : LossyQueue α capacity) (a : α) :
    (q.buffered < capacity ∧ (q.enqueue a).toList = q.toList ++ [a] ∧
      (q.enqueue a).overflowed = q.overflowed) ∨
    (capacity ≤ q.buffered ∧ ∃ oldest rest, q.toList = oldest :: rest ∧
      (q.enqueue a).toList = rest ++ [a] ∧ (q.enqueue a).overflowed = q.overflowed + 1) := by
  rcases Nat.lt_or_ge q.buffered capacity with hlt | hle
  · exact .inl ⟨hlt, toList_enqueue_of_lt hlt a, overflowed_enqueue_of_lt hlt a⟩
  · have hlist := toList_enqueue_of_le hle hpos a
    cases hq : q.toList with
    | nil =>
      rw [← length_toList, hq] at hle
      exact absurd hpos (Nat.not_lt.mpr hle)
    | cons oldest rest =>
      rw [hq] at hlist
      exact .inr ⟨hle, oldest, rest, rfl, hlist, overflowed_enqueue_of_le hle a⟩

-- ---------------------------------------------------------------------------
-- Taking records out
-- ---------------------------------------------------------------------------

theorem toList_of_dequeue_none {q : LossyQueue α capacity} (h : q.dequeue = none) :
    q.toList = [] := by
  unfold dequeue at h
  split at h
  · cases h
  · rename_i hp
    exact (Fifo.pop?_eq_none_iff _).mp hp

/-- The oldest record leaves, and what was counted stays. -/
theorem dequeue_some {q rest : LossyQueue α capacity} {a : α} (h : q.dequeue = some (a, rest)) :
    q.toList = a :: rest.toList ∧ rest.enqueued = q.enqueued ∧
      rest.overflowed = q.overflowed := by
  unfold dequeue at h
  split at h
  · rename_i b slots hp
    obtain ⟨rfl, rfl⟩ := Prod.mk.inj (Option.some.inj h)
    exact ⟨Fifo.toList_of_pop? hp, rfl, rfl⟩
  · cases h

-- ---------------------------------------------------------------------------
-- Latest records
-- ---------------------------------------------------------------------------

theorem toList_enqueue_of_rtake {q : LossyQueue α capacity} (hpos : 0 < capacity) {l : List α}
    (h : q.toList = l.rtake capacity) (a : α) :
    (q.enqueue a).toList = (l ++ [a]).rtake capacity := by
  have hlen : q.buffered = l.length - (l.length - capacity) := by
    rw [← length_toList, h, List.rtake, List.length_drop]
  have hshort : (l ++ [a]).rtake capacity = (l.drop (l.length + 1 - capacity)) ++ [a] := by
    rw [List.rtake, List.length_append, List.length_singleton,
      List.drop_append_of_le_length (by omega)]
  rw [hshort]
  by_cases hfull : q.buffered < capacity
  · rw [toList_enqueue_of_lt hfull, h, List.rtake]
    have hl : l.length < capacity := by omega
    rw [Nat.sub_eq_zero_of_le (by omega), Nat.sub_eq_zero_of_le (by omega)]
  · rw [toList_enqueue_of_le (Nat.not_lt.mp hfull) hpos, h, List.rtake, List.tail_drop]
    have hl : l.length - capacity + 1 = l.length + 1 - capacity := by omega
    rw [hl]

end BleCapture.LossyQueue
