import BleCapture.Agent
import BleCapture.Proofs.Queue.Lossy

/-!
# Agent runs

Advertisements are delivered while a sink takes buffered ones. A drain hands
over whatever is buffered, in order, and the way in which it is stopped makes
no difference to that.
-/

namespace BleCapture

namespace Agent

variable {σ : Type u} (sink : σ → Advertisement → σ × Option IoError)

/-- Hands records to a sink until it refuses one. Gives the records after that
one, the sink and the error. -/
def handOver : List Advertisement → σ → List Advertisement × σ × Option IoError
  | [], s => ([], s, none)
  | a :: rest, s =>
    match sink s a with
    | (s, some e) => (rest, s, some e)
    | (s, none) => handOver rest s

theorem handOver_append (front back : List Advertisement) (s : σ) :
    handOver sink (front ++ back) s =
      match handOver sink front s with
      | (rest, s, some e) => (rest ++ back, s, some e)
      | (_, s, none) => handOver sink back s := by
  induction front generalizing s with
  | nil => rfl
  | cons a more ih =>
    rw [List.cons_append, handOver, handOver]
    rcases sink s a with ⟨s', _ | e⟩
    · exact ih s'
    · rfl

theorem handOver_rest_of_none {l : List Advertisement} {s : σ}
    (h : (handOver sink l s).2.2 = none) : (handOver sink l s).1 = [] := by
  induction l generalizing s with
  | nil => rfl
  | cons a more ih =>
    rw [handOver] at h ⊢
    rcases hs : sink s a with ⟨s', _ | e⟩
    · rw [hs] at h
      exact ih h
    · rw [hs] at h
      cases h

/-- What an agent and its sink look like once the sink has been handed the
records `l`, while the records `later` stay in the buffer. -/
structure HandedOver (g : Agent) (s : σ) (l later : List Advertisement)
    (r : Agent × σ × Option IoError) : Prop where
  handed : r.2 = (handOver sink l s).2
  buffer : r.1.buffer.toList = (handOver sink l s).1 ++ later
  overflowed : r.1.buffer.overflowed = g.buffer.overflowed
  enqueued : r.1.buffer.enqueued = g.buffer.enqueued
  advertisements : r.1.advertisements = g.advertisements
  scanResponses : r.1.scanResponses = g.scanResponses

theorem handedOver_emit (n : Nat) (g : Agent) (s : σ) :
    HandedOver sink g s (g.buffer.toList.take n) (g.buffer.toList.drop n) (emit sink n g s) := by
  induction n generalizing g s with
  | zero => exact ⟨rfl, rfl, rfl, rfl, rfl, rfl⟩
  | succ n ih =>
    rw [emit]
    split
    · rename_i hnone
      rw [LossyQueue.toList_of_dequeue_none hnone]
      exact ⟨rfl, by simp [handOver, LossyQueue.toList_of_dequeue_none hnone], rfl, rfl, rfl, rfl⟩
    · rename_i a rest hsome
      obtain ⟨hlist, henqueued, hoverflowed⟩ := LossyQueue.dequeue_some hsome
      rw [hlist, List.take_succ_cons, List.drop_succ_cons]
      rcases hs : sink s a with ⟨s', _ | e⟩
      · have h := ih { g with buffer := rest } s'
        refine ⟨?_, ?_, h.overflowed.trans hoverflowed, h.enqueued.trans henqueued,
          h.advertisements, h.scanResponses⟩
        · simpa [handOver, hs] using h.handed
        · simpa [handOver, hs] using h.buffer
      · refine ⟨?_, ?_, hoverflowed, henqueued, rfl, rfl⟩
        · simp [handOver, hs]
        · simp [handOver, hs]

theorem handedOver_emit_buffered (g : Agent) (s : σ) :
    HandedOver sink g s g.buffer.toList [] (emit sink g.buffer.buffered g s) := by
  have h := handedOver_emit sink g.buffer.buffered g s
  have hlen : g.buffer.toList.length ≤ g.buffer.buffered :=
    Nat.le_of_eq g.buffer.length_toList
  rwa [List.take_of_length_le hlen, List.drop_of_length_le hlen] at h

/-- A drain hands over the whole buffer; the records after a refused one stay. -/
theorem handedOver_drain (g : Agent) (stop : DrainStop) (s : σ) :
    HandedOver sink g s g.buffer.toList [] (g.drain stop sink s) := by
  have hfirst := handedOver_emit sink (g.paced stop) g s
  have hall := handOver_append sink (g.buffer.toList.take (g.paced stop))
    (g.buffer.toList.drop (g.paced stop)) s
  have hrest := handOver_rest_of_none sink (l := g.buffer.toList.take (g.paced stop)) (s := s)
  rw [List.take_append_drop] at hall
  -- Both halves of a drain together hand over the list of both.
  rw [drain]
  rcases hemit : emit sink (g.paced stop) g s with ⟨g', s', failure⟩
  rcases hover : handOver sink (g.buffer.toList.take (g.paced stop)) s with ⟨left, t, failure'⟩
  rw [hemit] at hfirst
  obtain ⟨hhanded, hbuffer, hoverflowed, henqueued, hadvertisements, hresponses⟩ := hfirst
  rw [hover] at hall hhanded hbuffer hrest
  obtain ⟨rfl, rfl⟩ := Prod.mk.inj hhanded
  cases failure with
  | some e =>
    -- The second half does not begin, so its records stay after the refused one.
    refine ⟨?_, ?_, hoverflowed, henqueued, hadvertisements, hresponses⟩
    · rw [hall]
    · rw [hall, List.append_nil]
      exact hbuffer
  | none =>
    obtain rfl : left = [] := hrest rfl
    obtain ⟨hhanded', hbuffer', hoverflowed', henqueued', hadvertisements', hresponses'⟩ :=
      handedOver_emit_buffered sink g' s'
    have hlater : g'.buffer.toList = g.buffer.toList.drop (g.paced stop) := hbuffer
    rw [hlater] at hhanded' hbuffer'
    refine ⟨?_, ?_, hoverflowed'.trans hoverflowed, henqueued'.trans henqueued,
      hadvertisements'.trans hadvertisements, hresponses'.trans hresponses⟩
    · rw [hall]
      exact hhanded'
    · rw [hall]
      exact hbuffer'

/-- Only an empty payload keeps an advertisement out of the buffer. -/
theorem buffer_deliver (g : Agent) (a : Advertisement) :
    (g.deliver a).buffer =
      if a.payload.isEmpty then g.buffer
      else g.buffer.enqueue { a with channel := channelFor a (g.deliver a).advertisements } := by
  unfold deliver
  by_cases hresponse : a.type = .scanResponse
  · rw [if_pos hresponse]
    dsimp only
    split <;> rfl
  · rw [if_neg hresponse]
    dsimp only
    split <;> rfl

end Agent

-- ---------------------------------------------------------------------------
-- Steps
-- ---------------------------------------------------------------------------

/-- What can happen to an agent and the sink it drains into. -/
inductive AgentStep where
  | deliver (a : Advertisement)
  /-- A drain that goes on later hands over some records. -/
  | emit (count : Nat)
  | drain (stop : DrainStop)

/-- The advertisement that a step puts into the buffer. -/
def AgentStep.kept? : AgentStep → Option Advertisement
  | .deliver a => if a.payload.isEmpty then none else some a
  | _ => none

namespace Agent

variable {σ : Type u} (sink : σ → Advertisement → σ × Option IoError)

def step (s : Agent × σ) : AgentStep → Agent × σ
  | .deliver a => (s.1.deliver a, s.2)
  | .emit count => ((emit sink count s.1 s.2).1, (emit sink count s.1 s.2).2.1)
  | .drain stop => ((s.1.drain stop sink s.2).1, (s.1.drain stop sink s.2).2.1)

def run (s : Agent × σ) (steps : List AgentStep) : Agent × σ := steps.foldl (step sink) s

/-- Every step that takes records out hands over some front of the buffer. -/
theorem step_cases (s : Agent × σ) (x : AgentStep) :
    (∃ a, x = .deliver a ∧ step sink s x = (s.1.deliver a, s.2)) ∨
    (x.kept? = none ∧ ∃ l later failure, s.1.buffer.toList = l ++ later ∧
      HandedOver sink s.1 s.2 l later ((step sink s x).1, (step sink s x).2, failure)) := by
  cases x with
  | deliver a => exact .inl ⟨a, rfl, rfl⟩
  | emit count =>
    refine .inr ⟨rfl, _, _, (emit sink count s.1 s.2).2.2, ?_, handedOver_emit sink count s.1 s.2⟩
    rw [List.take_append_drop]
  | drain stop =>
    refine .inr ⟨rfl, _, [], (s.1.drain stop sink s.2).2.2, ?_, handedOver_drain sink s.1 stop s.2⟩
    rw [List.append_nil]

end Agent

end BleCapture
