import BleCapture.Queue.Fifo

/-!
# Lossy queue

A queue of fixed capacity that never refuses a record: when it is full, the
oldest one is overwritten. Overwriting is counted, not reported.
-/

namespace BleCapture

structure LossyQueue (α : Type u) (capacity : Nat) where
  slots : Fifo α := {}
  buffered : Nat := 0
  enqueued : Nat := 0
  /-- Records overwritten before anyone took them. -/
  overflowed : Nat := 0
  buffered_eq : buffered = slots.toList.length := by exact Fifo.length_empty _

namespace LossyQueue

variable {α : Type u} {capacity : Nat}

/-- The waiting records, oldest first. -/
def toList (q : LossyQueue α capacity) : List α := q.slots.toList

def isEmpty (q : LossyQueue α capacity) : Bool := q.buffered == 0

/-- Adds a record, at the cost of the oldest one when all slots are taken. -/
def enqueue (q : LossyQueue α capacity) (a : α) : LossyQueue α capacity :=
  if q.buffered < capacity then
    { slots := q.slots.push a
      buffered := q.buffered + 1
      enqueued := q.enqueued + 1
      overflowed := q.overflowed
      buffered_eq := by simp [q.buffered_eq] }
  else
    match h : q.slots.pop? with
    | some (_, rest) =>
      { slots := rest.push a
        buffered := q.buffered
        enqueued := q.enqueued + 1
        overflowed := q.overflowed + 1
        buffered_eq := by simp [q.buffered_eq, Fifo.toList_of_pop? h] }
    | none => { q with enqueued := q.enqueued + 1, overflowed := q.overflowed + 1 }

def dequeue (q : LossyQueue α capacity) : Option (α × LossyQueue α capacity) :=
  match h : q.slots.pop? with
  | some (a, rest) =>
    some (a,
      { slots := rest
        buffered := q.buffered - 1
        enqueued := q.enqueued
        overflowed := q.overflowed
        buffered_eq := by simp [q.buffered_eq, Fifo.toList_of_pop? h] })
  | none => none

end LossyQueue

end BleCapture
