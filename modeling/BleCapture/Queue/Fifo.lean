/-!
# First in, first out

A queue as two lists, so that both ends are cheap. Its meaning is the list of
its members, oldest first; every operation is described on that list.
-/

namespace BleCapture

/-- The members are `front`, then `back` in reverse. -/
structure Fifo (α : Type u) where
  front : List α := []
  back : List α := []

namespace Fifo

/-- All members, oldest first. -/
def toList (q : Fifo α) : List α := q.front ++ q.back.reverse

def push (q : Fifo α) (a : α) : Fifo α := { q with back := a :: q.back }

/-- The oldest member and the queue without it. -/
def pop? (q : Fifo α) : Option (α × Fifo α) :=
  match q.front with
  | a :: front => some (a, ⟨front, q.back⟩)
  | [] =>
    match q.back.reverse with
    | a :: front => some (a, ⟨front, []⟩)
    | [] => none

@[simp] theorem toList_empty : (⟨[], []⟩ : Fifo α).toList = [] := rfl

/-- The count of an empty queue, for those that keep one beside their queue. -/
theorem length_empty (α : Type u) : 0 = ({} : Fifo α).toList.length := rfl

@[simp] theorem toList_push (q : Fifo α) (a : α) : (q.push a).toList = q.toList ++ [a] := by
  simp [toList, push]

theorem pop?_eq_none_iff (q : Fifo α) : q.pop? = none ↔ q.toList = [] := by
  obtain ⟨front, back⟩ := q
  cases front with
  | cons => simp [pop?, toList]
  | nil =>
    simp only [pop?, toList, List.nil_append]
    split <;> simp_all

theorem toList_of_pop? {q rest : Fifo α} {a : α} (h : q.pop? = some (a, rest)) :
    q.toList = a :: rest.toList := by
  obtain ⟨front, back⟩ := q
  cases front with
  | cons b front =>
    simp only [pop?, Option.some.injEq, Prod.mk.injEq] at h
    obtain ⟨rfl, rfl⟩ := h
    rfl
  | nil =>
    simp only [pop?] at h
    split at h
    · rename_i b front hb
      simp only [Option.some.injEq, Prod.mk.injEq] at h
      obtain ⟨rfl, rfl⟩ := h
      simpa [toList] using hb
    · simp at h

end Fifo

end BleCapture
