import BleCapture.Proofs.Queue.Lossy

/-!
# Queues in use

A lossy queue into which any number of parties put records and from which any
number take them, in any order. Every record put in is taken once, overwritten
or still waiting; the waiting ones are the latest, and the counters count.
-/

namespace BleCapture

/-- One use of a queue. It happens as a whole. -/
inductive QueueCall (α : Type u) where
  | enqueue (record : α)
  | dequeue

def QueueCall.record? {α : Type u} : QueueCall α → Option α
  | .enqueue a => some a
  | .dequeue => none

/-- Calls by parties in the order in which they happen. The calls of one party
are some of them, so any interleaving of what the parties do is a schedule. -/
abbrev Schedule (ι : Type v) (α : Type u) := List (ι × QueueCall α)

/-- The records that a schedule puts in, in order. -/
def Schedule.records {ι : Type v} {α : Type u} (schedule : Schedule ι α) : List α :=
  schedule.filterMap fun call => call.2.record?

theorem Schedule.records_concat {ι : Type v} {α : Type u} (schedule : Schedule ι α)
    (call : ι × QueueCall α) :
    records (schedule ++ [call]) = records schedule ++ call.2.record?.toList := by
  obtain ⟨party, action⟩ := call
  cases action <;> simp [records, QueueCall.record?]

/-- A queue with all that was taken from it, oldest first, and who took it. -/
structure SharedQueue (ι : Type v) (α : Type u) (capacity : Nat) where
  queue : LossyQueue α capacity := {}
  taken : List (ι × α) := []

namespace SharedQueue

variable {ι : Type v} {α : Type u} {capacity : Nat}

def step (s : SharedQueue ι α capacity) : ι × QueueCall α → SharedQueue ι α capacity
  | (_, .enqueue a) => { s with queue := s.queue.enqueue a }
  | (party, .dequeue) =>
    match s.queue.dequeue with
    | some (a, queue) => { queue, taken := s.taken ++ [(party, a)] }
    | none => s

def run (schedule : Schedule ι α) : SharedQueue ι α capacity := schedule.foldl step {}

theorem run_concat (schedule : Schedule ι α) (call : ι × QueueCall α) :
    (run (schedule ++ [call]) : SharedQueue ι α capacity) = (run schedule).step call :=
  List.foldl_append ..

-- ---------------------------------------------------------------------------
-- One call
-- ---------------------------------------------------------------------------

/-- Everything that a call can do to a queue and to what was taken from it. -/
inductive Step (s : SharedQueue ι α capacity) :
    ι × QueueCall α → SharedQueue ι α capacity → Prop where
  /-- There is room for the record. -/
  | put {party a s'} : s.queue.buffered < capacity →
      s'.queue.toList = s.queue.toList ++ [a] → s'.queue.enqueued = s.queue.enqueued + 1 →
      s'.queue.overflowed = s.queue.overflowed → s'.taken = s.taken → Step s (party, .enqueue a) s'
  /-- The record takes the place of the oldest one. -/
  | overwrite {party a s'} (oldest : α) (rest : List α) : s.queue.buffered = capacity →
      s.queue.toList = oldest :: rest → s'.queue.toList = rest ++ [a] →
      s'.queue.enqueued = s.queue.enqueued + 1 →
      s'.queue.overflowed = s.queue.overflowed + 1 → s'.taken = s.taken →
      Step s (party, .enqueue a) s'
  /-- The oldest record is handed out. -/
  | take {party s'} (oldest : α) : s.queue.toList = oldest :: s'.queue.toList →
      s'.queue.enqueued = s.queue.enqueued → s'.queue.overflowed = s.queue.overflowed →
      s'.taken = s.taken ++ [(party, oldest)] → Step s (party, .dequeue) s'
  /-- There is nothing to hand out. -/
  | idle {party} : s.queue.toList = [] → Step s (party, .dequeue) s

theorem step_enqueue (hpos : 0 < capacity) {s : SharedQueue ι α capacity}
    (hroom : s.queue.buffered ≤ capacity) (party : ι) (a : α) :
    Step s (party, .enqueue a) (s.step (party, .enqueue a)) := by
  have hcount := LossyQueue.enqueued_enqueue s.queue a
  rcases LossyQueue.enqueue_cases hpos s.queue a with
    ⟨hlt, hlist, hover⟩ | ⟨hle, oldest, rest, hold, hlist, hover⟩
  · exact .put hlt hlist hcount hover rfl
  · exact .overwrite oldest rest (Nat.le_antisymm hroom hle) hold hlist hcount hover rfl

theorem step_dequeue (s : SharedQueue ι α capacity) (party : ι) :
    Step s (party, .dequeue) (s.step (party, .dequeue)) := by
  rw [step]
  split
  · rename_i a rest hsome
    obtain ⟨hlist, henqueued, hoverflowed⟩ := LossyQueue.dequeue_some hsome
    exact .take a hlist henqueued hoverflowed rfl
  · rename_i hnone
    exact .idle (LossyQueue.toList_of_dequeue_none hnone)

theorem step_cases (hpos : 0 < capacity) {s : SharedQueue ι α capacity}
    (hroom : s.queue.buffered ≤ capacity) (call : ι × QueueCall α) : Step s call (s.step call) := by
  obtain ⟨party, action⟩ := call
  cases action with
  | enqueue a => exact step_enqueue hpos hroom party a
  | dequeue => exact step_dequeue s party

/-- Only a record that finds the queue full is counted as an overflow. -/
theorem Step.overflowed_eq {s s' : SharedQueue ι α capacity} {call : ι × QueueCall α}
    (h : Step s call s') :
    s'.queue.overflowed = s.queue.overflowed +
      if call.2.record?.isSome ∧ s.queue.buffered = capacity then 1 else 0 := by
  cases h with
  | put hlt _ _ hover => simp [hover, Nat.ne_of_lt hlt]
  | overwrite _ _ hfull _ _ _ hover => simp [hover, hfull, QueueCall.record?]
  | take _ _ _ hover => simp [hover, QueueCall.record?]
  | idle => simp [QueueCall.record?]

-- ---------------------------------------------------------------------------
-- All calls
-- ---------------------------------------------------------------------------

/-- How a record left the queue. -/
inductive Departure where
  | taken
  | overwritten
  deriving DecidableEq

/-- A queue after the records `records` were put in: the records `gone` have left
it, the oldest first and each in one way, and the others are waiting. -/
structure Ledger (records : List α) (gone : List (α × Departure))
    (s : SharedQueue ι α capacity) : Prop where
  room : s.queue.buffered ≤ capacity
  split : records = gone.map Prod.fst ++ s.queue.toList
  taken : s.taken.map Prod.snd = (gone.filter (·.2 = .taken)).map Prod.fst
  overflowed : s.queue.overflowed = (gone.filter (·.2 = .overwritten)).length
  enqueued : s.queue.enqueued = records.length

theorem ledger_start : Ledger [] [] ({} : SharedQueue ι α capacity) :=
  ⟨Nat.zero_le _, rfl, rfl, rfl, rfl⟩

theorem Ledger.step {records : List α} {gone : List (α × Departure)}
    {s s' : SharedQueue ι α capacity} {call : ι × QueueCall α} (h : Ledger records gone s)
    (hstep : Step s call s') :
    ∃ gone', Ledger (records ++ call.2.record?.toList) (gone ++ gone') s' := by
  obtain ⟨hroom, hsplit, htaken, hoverflowed, henqueued⟩ := h
  cases hstep with
  | put hlt hlist hcount hover htook =>
    refine ⟨[], ?_, ?_, ?_, ?_, ?_⟩
    · rw [← LossyQueue.length_toList, hlist]
      simpa using Nat.succ_le_of_lt hlt
    · simp [hsplit, hlist, QueueCall.record?]
    · simp [htook, htaken]
    · simp [hover, hoverflowed]
    · simp [hcount, henqueued, QueueCall.record?]
  | overwrite oldest rest hfull hold hlist hcount hover htook =>
    refine ⟨[(oldest, .overwritten)], ?_, ?_, ?_, ?_, ?_⟩
    · rw [← LossyQueue.length_toList, hold] at hroom
      rw [← LossyQueue.length_toList, hlist]
      simpa using hroom
    · simp [hsplit, hold, hlist, QueueCall.record?]
    · simp [htook, htaken]
    · simp [hover, hoverflowed]
    · simp [hcount, henqueued, QueueCall.record?]
  | take oldest hlist hcount hover htook =>
    refine ⟨[(oldest, .taken)], ?_, ?_, ?_, ?_, ?_⟩
    · rw [← LossyQueue.length_toList] at hroom ⊢
      rw [hlist] at hroom
      exact Nat.le_of_succ_le hroom
    · simp [hsplit, hlist, QueueCall.record?]
    · simp [htook, htaken]
    · simp [hover, hoverflowed]
    · simp [hcount, henqueued, QueueCall.record?]
  | idle hnil =>
    refine ⟨[], hroom, ?_, ?_, ?_, ?_⟩
    · simp [hsplit, QueueCall.record?]
    · simp [htaken]
    · simp [hoverflowed]
    · simp [henqueued, QueueCall.record?]

theorem ledger_run (hpos : 0 < capacity) (schedule : Schedule ι α) :
    ∃ gone, Ledger schedule.records gone (run schedule : SharedQueue ι α capacity) := by
  induction schedule using List.reverseRecOn with
  | nil => exact ⟨[], ledger_start⟩
  | append_singleton schedule call ih =>
    obtain ⟨gone, hgone⟩ := ih
    obtain ⟨gone', hnext⟩ := hgone.step (step_cases hpos hgone.room call)
    exact ⟨gone ++ gone', by rwa [Schedule.records_concat, run_concat]⟩

-- ---------------------------------------------------------------------------
-- The books
-- ---------------------------------------------------------------------------

/-- What holds of a queue after a schedule. -/
structure Accounted (schedule : Schedule ι α) (s : SharedQueue ι α capacity) : Prop where
  room : s.queue.buffered ≤ capacity
  latest : s.queue.toList = schedule.records.rtake s.queue.buffered
  enqueued : s.queue.enqueued = schedule.records.length
  balance : s.queue.enqueued = s.taken.length + s.queue.overflowed + s.queue.buffered
  ordered : (s.taken.map Prod.snd).Sublist schedule.records
  /-- The first records are gone, each in one way, and the others are waiting. -/
  partition : ∃ gone : List (α × Departure),
    schedule.records = gone.map Prod.fst ++ s.queue.toList ∧
    s.taken.map Prod.snd = (gone.filter (·.2 = .taken)).map Prod.fst ∧
    s.queue.overflowed = (gone.filter (·.2 = .overwritten)).length

theorem length_departures (gone : List (α × Departure)) :
    gone.length =
      (gone.filter (·.2 = .taken)).length + (gone.filter (·.2 = .overwritten)).length := by
  induction gone with
  | nil => rfl
  | cons first rest ih =>
    obtain ⟨a, _ | _⟩ := first
    · simp [ih, Nat.add_right_comm]
    · simp [ih, Nat.add_assoc]

theorem Ledger.accounted {schedule : Schedule ι α} {gone : List (α × Departure)}
    {s : SharedQueue ι α capacity} (h : Ledger schedule.records gone s) :
    Accounted schedule s := by
  obtain ⟨hroom, hsplit, htaken, hoverflowed, henqueued⟩ := h
  refine ⟨hroom, ?_, henqueued, ?_, ?_, gone, hsplit, htaken, hoverflowed⟩
  · rw [hsplit, List.rtake]
    simp
  · have htook : s.taken.length = (gone.filter (·.2 = .taken)).length := by
      simpa using congrArg List.length htaken
    rw [henqueued, hsplit, htook, hoverflowed, ← length_departures]
    simp
  · rw [htaken, hsplit]
    exact (List.filter_sublist.map _).trans (List.sublist_append_left _ _)

/-- At every point of every schedule: the queue holds the latest records put
into it, as many as it counts and never more than its capacity; every record is
taken, overwritten or waiting, and not two of these; what is taken comes out in
the order in which it was put in. A record is lost exactly when one is put into
a full queue, and it is the oldest one. -/
theorem run_accounted (hpos : 0 < capacity) (schedule : Schedule ι α) :
    let s : SharedQueue ι α capacity := run schedule
    Accounted schedule s ∧
    ∀ call : ι × QueueCall α,
      Step s call (s.step call) ∧
      (s.step call).queue.overflowed = s.queue.overflowed +
        if call.2.record?.isSome ∧ s.queue.buffered = capacity then 1 else 0 := by
  intro s
  obtain ⟨gone, hgone⟩ := ledger_run hpos schedule
  refine ⟨hgone.accounted, fun call => ?_⟩
  have hstep := step_cases hpos hgone.room call
  exact ⟨hstep, hstep.overflowed_eq⟩

/-- Two producers fill a queue of two and overwrite a record before a third
party takes one. -/
theorem run_accounted_of_overwritten :
    let schedule : Schedule Nat String :=
      [(0, .enqueue "a"), (1, .enqueue "b"), (0, .enqueue "c"), (2, .dequeue)]
    let s : SharedQueue Nat String 2 := run schedule
    0 < 2 ∧ s.taken = [(2, "b")] ∧ s.queue.toList = ["c"] ∧ s.queue.overflowed = 1 ∧
      Accounted schedule s :=
  ⟨by decide, rfl, rfl, rfl, (run_accounted (by decide) _).1⟩

end SharedQueue

end BleCapture
