import BleCapture.Proofs.Agent
import Mathlib.Algebra.Ring.Nat

/-!
# The books of an agent

Every advertisement is counted once, and every record made of one is emitted,
refused by a sink that failed, overwritten or still buffered. A drain emits what
its sink takes, whichever way it is stopped, and loses the record that is refused.
-/

namespace BleCapture

-- ---------------------------------------------------------------------------
-- Records
-- ---------------------------------------------------------------------------

/-- How many of these are not scan responses. -/
def primaryCount (delivered : List Advertisement) : Nat :=
  delivered.countP fun a => a.type ≠ .scanResponse

/-- The record of an advertisement that is primary number `k`, or comes after it. -/
def Advertisement.recorded (a : Advertisement) (k : Nat) : Advertisement :=
  { a with channel := if a.channel ≠ 0 then a.channel else UInt8.ofNat (37 + k % 3) }

/-- The records of these advertisements. One without payload has none, but it
counts for the channels of those after it. -/
def recordsOf (delivered : List Advertisement) : List Advertisement :=
  (delivered.zipIdx.filter fun p => !p.1.payload.isEmpty).map fun p =>
    p.1.recorded (primaryCount (delivered.take (p.2 + 1)))

theorem primaryCount_concat (delivered : List Advertisement) (a : Advertisement) :
    primaryCount (delivered ++ [a]) =
      primaryCount delivered + if a.type = .scanResponse then 0 else 1 := by
  by_cases hresponse : a.type = .scanResponse <;> simp [primaryCount, hresponse]

theorem Advertisement.recorded_eq (a : Advertisement) (k : Nat) :
    a.recorded k = { a with channel := Agent.channelFor a k } := by
  simp only [recorded, Agent.channelFor, ite_not]

theorem recordsOf_concat (delivered : List Advertisement) (a : Advertisement) :
    recordsOf (delivered ++ [a]) = recordsOf delivered ++
      if a.payload.isEmpty then [] else [a.recorded (primaryCount (delivered ++ [a]))] := by
  have hsame : ∀ p ∈ delivered.zipIdx.filter fun p => !p.1.payload.isEmpty,
      p.1.recorded (primaryCount ((delivered ++ [a]).take (p.2 + 1))) =
        p.1.recorded (primaryCount (delivered.take (p.2 + 1))) := by
    intro p hp
    have hlt : p.2 < delivered.length := by
      have := List.mem_zipIdx (List.mem_of_mem_filter hp)
      omega
    rw [List.take_append_of_le_length hlt]
  rw [recordsOf, List.zipIdx_append, List.filter_append, List.map_append, List.map_congr_left hsame,
    ← recordsOf]
  cases hempty : a.payload.isEmpty <;> simp [hempty, List.take_of_length_le]

theorem mem_recordsOf {delivered : List Advertisement} {r : Advertisement}
    (h : r ∈ recordsOf delivered) :
    ∃ before a after, delivered = before ++ a :: after ∧ a.payload ≠ [] ∧
      r = a.recorded (primaryCount (before ++ [a])) := by
  induction delivered using List.reverseRecOn with
  | nil => cases h
  | append_singleton delivered a ih =>
    rw [recordsOf_concat, List.mem_append] at h
    rcases h with h | h
    · obtain ⟨before, b, after, rfl, hpayload, hr⟩ := ih h
      exact ⟨before, b, after ++ [a], by simp, hpayload, hr⟩
    · split at h
      · cases h
      · rename_i hpayload
        exact ⟨delivered, a, [], rfl, by simpa using hpayload, List.mem_singleton.mp h⟩

-- ---------------------------------------------------------------------------
-- Runs
-- ---------------------------------------------------------------------------

/-- What a drain came to. -/
structure DrainReport where
  /-- In the order in which the sink took them. -/
  emitted : List Advertisement
  error : Option IoError

/-- Drains into a sink that takes `room` records and then fails. -/
def Agent.drainInto (g : Agent) (stop : DrainStop) (room : Nat) : Agent × DrainReport :=
  let (g, sink, error) := g.drain stop RecordSink.emit { room := some room }
  (g, ⟨sink.accepted.reverse, error⟩)

inductive AgentCall where
  | deliver (a : Advertisement)
  | radio (as : List Advertisement)
  | drain (stop : DrainStop) (room : Nat)

/-- The advertisements that a call delivers. -/
def AgentCall.delivered : AgentCall → List Advertisement
  | .deliver a => [a]
  | .radio as => as
  | .drain .. => []

/-- An agent and what its drains came to, the first one first. -/
structure AgentRun where
  agent : Agent := {}
  drains : List DrainReport := []

namespace AgentRun

def call (s : AgentRun) : AgentCall → AgentRun
  | .deliver a => { s with agent := s.agent.deliver a }
  | .radio as => { s with agent := s.agent.bridge as }
  | .drain stop room =>
    { agent := (s.agent.drainInto stop room).1
      drains := s.drains ++ [(s.agent.drainInto stop room).2] }

def run (calls : List AgentCall) : AgentRun := calls.foldl call {}

end AgentRun

-- ---------------------------------------------------------------------------
-- One advertisement
-- ---------------------------------------------------------------------------

theorem Agent.advertisements_deliver (g : Agent) (a : Advertisement) :
    (g.deliver a).advertisements =
      g.advertisements + if a.type = .scanResponse then 0 else 1 := by
  unfold deliver
  by_cases hresponse : a.type = .scanResponse <;> simp only [hresponse, if_true, if_false] <;>
    split <;> rfl

/-- Every advertisement counts once, whichever of the two counts it goes to. -/
theorem Agent.scanned_deliver (g : Agent) (a : Advertisement) :
    (g.deliver a).advertisements + (g.deliver a).scanResponses =
      g.advertisements + g.scanResponses + 1 := by
  unfold deliver
  by_cases hresponse : a.type = .scanResponse
  · simp only [hresponse, if_true]
    split <;> rfl
  · simp only [hresponse, if_false]
    split <;> exact Nat.add_right_comm ..

-- ---------------------------------------------------------------------------
-- One drain
-- ---------------------------------------------------------------------------

theorem handOver_recordSink (l : List Advertisement) (room : Nat) (accepted : List Advertisement) :
    Agent.handOver RecordSink.emit l ⟨some room, accepted⟩ =
      (l.drop (room + 1), ⟨some (room - l.length), (l.take room).reverse ++ accepted⟩,
        if room < l.length then some RecordSink.broken else none) := by
  induction l generalizing room accepted with
  | nil => simp [Agent.handOver]
  | cons a rest ih =>
    cases room with
    | zero => simp [Agent.handOver, RecordSink.emit]
    | succ room => simp [Agent.handOver, RecordSink.emit, ih]

/-- What a drain into a sink with room for `room` records makes of an agent. -/
structure Drained (g : Agent) (room : Nat) (r : Agent × DrainReport) : Prop where
  emitted : r.2.emitted = g.buffer.toList.take (min g.buffer.buffered room)
  fails_iff : r.2.error.isSome ↔ room < g.buffer.buffered
  left : r.1.buffer.toList = g.buffer.toList.drop (room + 1)
  buffered : r.1.buffer.buffered = g.buffer.buffered - room - 1
  enqueued : r.1.buffer.enqueued = g.buffer.enqueued
  overflowed : r.1.buffer.overflowed = g.buffer.overflowed
  advertisements : r.1.advertisements = g.advertisements
  scanResponses : r.1.scanResponses = g.scanResponses

theorem drained_drainInto (g : Agent) (stop : DrainStop) (room : Nat) :
    Drained g room (g.drainInto stop room) := by
  obtain ⟨hhanded, hbuffer, hoverflowed, henqueued, hadvertisements, hresponses⟩ :=
    Agent.handedOver_drain RecordSink.emit g stop { room := some room }
  rw [handOver_recordSink] at hhanded hbuffer
  have hleft : (g.drainInto stop room).1.buffer.toList = g.buffer.toList.drop (room + 1) :=
    hbuffer.trans (List.append_nil _)
  refine ⟨?_, ?_, hleft, ?_, henqueued, hoverflowed, hadvertisements, hresponses⟩
  · simp [Agent.drainInto, hhanded, List.take_eq_take_iff, Nat.min_comm]
  · simp [Agent.drainInto, hhanded]
  · simpa [Nat.sub_sub] using congrArg List.length hleft

-- ---------------------------------------------------------------------------
-- The books
-- ---------------------------------------------------------------------------

/-- What an agent has counted, and where the records are that it made. -/
structure AgentBooks (delivered : List Advertisement) (s : AgentRun) : Prop where
  primary : s.agent.advertisements = primaryCount delivered
  scanned : s.agent.advertisements + s.agent.scanResponses = delivered.length
  kept : s.agent.buffer.enqueued = delivered.countP fun a => a.payload ≠ []
  balance : s.agent.buffer.enqueued =
    (s.drains.map fun d => d.emitted.length).sum + s.drains.countP (fun d => d.error.isSome) +
      s.agent.buffer.overflowed + s.agent.buffer.buffered
  /-- The buffer holds the latest records. -/
  latest : s.agent.buffer.toList <:+ recordsOf delivered

namespace AgentBooks

variable {delivered : List Advertisement} {s : AgentRun}

theorem start : AgentBooks [] {} := ⟨rfl, rfl, rfl, rfl, List.nil_suffix⟩

theorem counted_deliver (h : AgentBooks delivered s) (a : Advertisement) :
    (s.agent.deliver a).advertisements = primaryCount (delivered ++ [a]) ∧
      (s.agent.deliver a).advertisements + (s.agent.deliver a).scanResponses =
        (delivered ++ [a]).length := by
  constructor
  · rw [primaryCount_concat, ← h.primary, Agent.advertisements_deliver]
  · rw [Agent.scanned_deliver, h.scanned, List.length_append, List.length_singleton]

/-- An advertisement without payload is counted, and nothing else happens. -/
theorem deliver_of_empty (h : AgentBooks delivered s) {a : Advertisement}
    (hempty : a.payload = []) :
    AgentBooks (delivered ++ [a]) { s with agent := s.agent.deliver a } := by
  obtain ⟨hprimary, hscanned⟩ := h.counted_deliver a
  obtain ⟨-, -, hkept, hbalance, hlatest⟩ := h
  have hbuffer : (s.agent.deliver a).buffer = s.agent.buffer := by
    simp [Agent.buffer_deliver, hempty]
  refine ⟨hprimary, hscanned, ?_, ?_, ?_⟩
  · simp [hbuffer, hkept, hempty]
  · rw [hbuffer]
    exact hbalance
  · rw [hbuffer, recordsOf_concat]
    simpa [hempty] using hlatest

/-- An advertisement with a payload is recorded, at the cost of the oldest record
if there is no room. -/
theorem deliver_of_ne_nil (h : AgentBooks delivered s) {a : Advertisement}
    (hpayload : a.payload ≠ []) :
    AgentBooks (delivered ++ [a]) { s with agent := s.agent.deliver a } := by
  obtain ⟨hprimary, hscanned⟩ := h.counted_deliver a
  obtain ⟨-, -, hkept, hbalance, hlatest⟩ := h
  have hbuffer : (s.agent.deliver a).buffer =
      s.agent.buffer.enqueue (a.recorded (primaryCount (delivered ++ [a]))) := by
    rw [Agent.buffer_deliver, hprimary, ← Advertisement.recorded_eq]
    simp [hpayload]
  have hrecords : recordsOf (delivered ++ [a]) =
      recordsOf delivered ++ [a.recorded (primaryCount (delivered ++ [a]))] := by
    simp [recordsOf_concat, hpayload]
  generalize a.recorded (primaryCount (delivered ++ [a])) = r at hbuffer hrecords
  refine ⟨hprimary, hscanned, ?_, ?_, ?_⟩
  · simp [hbuffer, hkept, hpayload]
  · rw [hbuffer, LossyQueue.enqueued_enqueue, hbalance, ← LossyQueue.length_toList,
      ← LossyQueue.length_toList]
    rcases LossyQueue.enqueue_cases (by decide) s.agent.buffer r with
      ⟨-, hlist, hover⟩ | ⟨-, oldest, rest, hold, hlist, hover⟩
    · simp only [hlist, hover, List.length_append, List.length_singleton, Nat.add_assoc]
    · simp only [hlist, hover, hold, List.length_append, List.length_cons, List.length_nil]
      omega
  · rw [hbuffer, hrecords]
    rcases LossyQueue.enqueue_cases (by decide) s.agent.buffer r with
      ⟨-, hlist, -⟩ | ⟨-, oldest, rest, hold, hlist, -⟩
    · rw [hlist]
      exact List.suffix_append_self_iff.mpr hlatest
    · rw [hold] at hlatest
      rw [hlist]
      exact List.suffix_append_self_iff.mpr ((List.suffix_cons oldest rest).trans hlatest)

theorem deliver (h : AgentBooks delivered s) (a : Advertisement) :
    AgentBooks (delivered ++ [a]) { s with agent := s.agent.deliver a } := by
  by_cases hempty : a.payload = []
  · exact h.deliver_of_empty hempty
  · exact h.deliver_of_ne_nil hempty

theorem radio (h : AgentBooks delivered s) (as : List Advertisement) :
    AgentBooks (delivered ++ as) { s with agent := s.agent.bridge as } := by
  induction as generalizing delivered s with
  | nil => simpa [Agent.bridge] using h
  | cons a rest ih => simpa [Agent.bridge] using ih (h.deliver a)

theorem drain (h : AgentBooks delivered s) {room : Nat} {r : Agent × DrainReport}
    (hr : Drained s.agent room r) :
    AgentBooks delivered { agent := r.1, drains := s.drains ++ [r.2] } := by
  obtain ⟨hprimary, hscanned, hkept, hbalance, hlatest⟩ := h
  refine ⟨?_, ?_, ?_, ?_, ?_⟩
  · exact hr.advertisements.trans hprimary
  · rw [hr.advertisements, hr.scanResponses, hscanned]
  · exact hr.enqueued.trans hkept
  · -- Of the records that were buffered, those not left were emitted, up to one that was refused.
    have hemitted : r.2.emitted.length = min s.agent.buffer.buffered room := by
      simp [hr.emitted]
    have hfailed : [r.2].countP (fun d => d.error.isSome) =
        if room < s.agent.buffer.buffered then 1 else 0 := by
      simp [List.countP_singleton, hr.fails_iff]
    simp only [List.map_append, List.sum_append, List.countP_append, hr.enqueued, hr.overflowed,
      hr.buffered, hfailed, List.map_singleton, List.sum_singleton, hemitted, hbalance]
    split <;> omega
  · show r.1.buffer.toList <:+ recordsOf delivered
    rw [hr.left]
    exact (List.drop_suffix _ _).trans hlatest

theorem run (calls : List AgentCall) :
    AgentBooks (calls.flatMap AgentCall.delivered) (AgentRun.run calls) := by
  induction calls using List.reverseRecOn with
  | nil => exact start
  | append_singleton calls call ih =>
    rw [List.flatMap_append, List.flatMap_singleton, AgentRun.run, List.foldl_append,
      ← AgentRun.run]
    cases call with
    | deliver a => exact ih.deliver a
    | radio as => exact ih.radio as
    | drain stop room =>
      rw [AgentCall.delivered, List.append_nil]
      exact ih.drain (drained_drainInto _ stop room)

end AgentBooks

/-- At every point of every run: each advertisement is counted once; each record
made of one was emitted, refused by a drain that failed, overwritten or is
buffered; and a buffered record has the channel of its advertisement, or one by
rotation where there was none. A drain into a sink with room for so many records
emits that many, oldest first, and fails if there is one more, which is lost
while those after it stay buffered; how it is stopped makes no difference. -/
theorem AgentRun.run_books (calls : List AgentCall) :
    let delivered := calls.flatMap AgentCall.delivered
    let s := run calls
    AgentBooks delivered s ∧
    (∀ r ∈ s.agent.buffer.toList, ∃ before a after, delivered = before ++ a :: after ∧
      a.payload ≠ [] ∧
      r = { a with
        channel := if a.channel ≠ 0 then a.channel
          else UInt8.ofNat (37 + primaryCount (before ++ [a]) % 3) }) ∧
    ∀ stop room, Drained s.agent room (s.agent.drainInto stop room) := by
  intro delivered s
  have hbooks : AgentBooks delivered s := AgentBooks.run calls
  refine ⟨hbooks, ?_, fun stop room => drained_drainInto s.agent stop room⟩
  intro r hr
  exact mem_recordsOf (hbooks.latest.subset hr)

end BleCapture
