import BleCapture.Proofs.Pcap.LiveWriter
import BleCapture.Proofs.Pcap.Reading
import Mathlib.Data.List.Infix
import Mathlib.Logic.Relation

/-!
# Live streams in use

Capture, writer and reader take their steps in any order: a reader may open the
pipe at any moment and then stays, and the steps of closing may fall between any
two steps of the writer. What is in the pipe is always the front of the stream
that the accepted frames make. Once closing has seen the writer stop, it is all
of that stream, or nothing because no reader came in time.
-/

namespace BleCapture.Pcap

-- ---------------------------------------------------------------------------
-- All parties
-- ---------------------------------------------------------------------------

/-- How far closing has come. -/
inductive ClosingStage where
  /-- Frames may still be sent. -/
  | sending
  /-- Sending has ended; the report of a reader is looked for next. -/
  | ended
  /-- No reader was reported; the writer is told to stop next. -/
  | unreported
  /-- The writer was told to stop; it is released next. -/
  | cancelled
  /-- The writer is waited for. -/
  | waiting
  /-- The writer has stopped. -/
  | closed
  /-- The writer took too long and is not waited for any more. -/
  | abandoned
  deriving DecidableEq, Repr

/-- Steps of closing until the writer is waited for, once sending has ended. -/
def ClosingStage.rank : ClosingStage → Nat
  | .ended => 3
  | .unreported => 2
  | .cancelled => 1
  | _ => 0

/-- A live stream with the frames that were offered to it, each with the answer
that sending it gave. -/
structure LiveRun where
  stream : LiveStream := {}
  sent : List ((Timestamp × List UInt8) × Bool) := []
  closing : ClosingStage := .sending

namespace LiveRun

/-- The frames that were queued, in the order in which they were sent. -/
def accepted (s : LiveRun) : List (Timestamp × List UInt8) :=
  (s.sent.filter fun answer => answer.2).map Prod.fst

/-- One step of the capture, the writer or a reader. -/
inductive Step (s : LiveRun) : LiveRun → Prop where
  | send (t : Timestamp) (packet : List UInt8) : s.closing = .sending →
      Step s { s with
        stream := (s.stream.send t packet).1
        sent := s.sent ++ [((t, packet), (s.stream.send t packet).2)] }
  | attachReader : Step s { s with stream := s.stream.attachReader }
  | writer (next : LiveStream) : s.stream.writerStep? = some next → Step s { s with stream := next }
  | endSending : s.closing = .sending →
      Step s { s with stream := s.stream.endSending, closing := .ended }
  | lookForReader : s.closing = .ended →
      Step s { s with closing := if s.stream.attached then .waiting else .unreported }
  | cancel : s.closing = .unreported →
      Step s { s with stream := s.stream.cancel, closing := .cancelled }
  | release : s.closing = .cancelled →
      Step s { s with stream := s.stream.release, closing := .waiting }
  | close : s.closing = .waiting → s.stream.stage = .stopped → Step s { s with closing := .closed }
  | abandon : s.closing = .waiting → Step s { s with closing := .abandoned }

abbrev Steps : LiveRun → LiveRun → Prop := Relation.ReflTransGen Step

def Reachable (s : LiveRun) : Prop := Steps {} s

-- ---------------------------------------------------------------------------
-- The invariant
-- ---------------------------------------------------------------------------

/-- What the writer has put into the pipe so far, and where the other accepted
frames are. -/
def Delivered (accepted : List (Timestamp × List UInt8)) (s : LiveStream) : Prop :=
  match s.stage with
  | .streaming =>
    ∃ written, accepted = written ++ s.queue.toList ∧ s.pipe.bytes = Pcap.stream written
  | .stopped => s.ended = true ∧ (s.pipe.bytes = [] ∨ s.pipe.bytes = Pcap.stream accepted)
  | _ => s.pipe.bytes = [] ∧ s.queue.toList = accepted

structure Inv (s : LiveRun) : Prop where
  sound : s.stream.Sound
  queued : s.stream.queued = s.stream.queue.toList.length
  room : s.stream.queued ≤ liveCapacity
  dropped : s.stream.dropped = s.sent.countP fun answer => !answer.2
  ended : s.stream.ended = true ↔ s.closing ≠ .sending
  /-- The writer is only told to stop when sending has ended. -/
  cancelled : s.stream.cancelled = true → s.closing ≠ .sending
  attached : s.stream.attached = true → s.stream.stage ≠ .opening
  /-- A writer that is waited for can open the pipe. -/
  waiting : s.closing = .waiting → s.stream.released = true ∨ s.stream.stage ≠ .opening
  closed : s.closing = .closed → s.stream.stage = .stopped
  delivered : Delivered s.accepted s.stream

theorem inv_start : Inv {} where
  sound := ⟨rfl, rfl, by simp⟩
  queued := rfl
  room := Nat.zero_le _
  dropped := rfl
  ended := by simp
  cancelled := by simp
  attached := by simp
  waiting := by simp
  closed := by simp
  delivered := ⟨rfl, rfl⟩

namespace Inv

variable {s : LiveRun}

/-- The writer cannot be over while frames are sent, so a frame is refused for want of
room only. -/
theorem not_over (h : Inv s) (hsending : s.closing = .sending) :
    ¬ s.stream.stage.over = true := by
  intro hover
  have hdelivered := h.delivered
  simp only [Delivered, h.sound.stage_eq_stopped hover] at hdelivered
  exact h.ended.mp hdelivered.1 hsending

theorem send_eq (h : Inv s) (hsending : s.closing = .sending) (t : Timestamp)
    (packet : List UInt8) :
    s.stream.send t packet =
      if s.stream.queued < liveCapacity then
        ({ s.stream with
            queue := s.stream.queue.push (t, packet), queued := s.stream.queued + 1 }, true)
      else ({ s.stream with dropped := s.stream.dropped + 1 }, false) := by
  have hended : ¬ s.stream.ended = true := fun hended => h.ended.mp hended hsending
  rw [LiveStream.send, if_neg hended, if_neg (h.not_over hsending)]

/-- An accepted frame goes to the end of the queue. -/
theorem delivered_push (h : Inv s) (hsending : s.closing = .sending)
    (frame : Timestamp × List UInt8) :
    Delivered (s.accepted ++ [frame]) { s.stream with
      queue := s.stream.queue.push frame, queued := s.stream.queued + 1 } := by
  have hdelivered := h.delivered
  have hover := h.not_over hsending
  unfold Delivered at hdelivered ⊢
  dsimp only
  split at hdelivered
  · obtain ⟨written, haccepted, hpipe⟩ := hdelivered
    refine ⟨written, ?_, hpipe⟩
    rw [Fifo.toList_push, haccepted, List.append_assoc]
  · rename_i hstage
    rw [hstage] at hover
    exact absurd rfl hover
  · obtain ⟨hpipe, hqueue⟩ := hdelivered
    refine ⟨hpipe, ?_⟩
    rw [Fifo.toList_push, hqueue]

theorem send (h : Inv s) (hsending : s.closing = .sending) (t : Timestamp)
    (packet : List UInt8) :
    Inv { s with
      stream := (s.stream.send t packet).1
      sent := s.sent ++ [((t, packet), (s.stream.send t packet).2)] } := by
  rw [h.send_eq hsending]
  split
  · rename_i hroom
    have haccepted : accepted { s with sent := s.sent ++ [((t, packet), true)] } =
        s.accepted ++ [(t, packet)] := by
      simp [accepted]
    refine ⟨?_, ?_, ?_, ?_, h.ended, h.cancelled, h.attached, h.waiting, h.closed, ?_⟩
    · exact ⟨h.sound.refusal, h.sound.limit, h.sound.stage⟩
    · simp [h.queued]
    · exact hroom
    · simp [h.dropped]
    · rw [accepted] at haccepted ⊢
      rw [haccepted]
      exact h.delivered_push hsending (t, packet)
  · have haccepted : accepted { s with sent := s.sent ++ [((t, packet), false)] } =
        s.accepted := by
      simp [accepted]
    refine ⟨?_, h.queued, h.room, ?_, h.ended, h.cancelled, h.attached, h.waiting, h.closed, ?_⟩
    · exact ⟨h.sound.refusal, h.sound.limit, h.sound.stage⟩
    · simp [h.dropped]
    · rw [accepted] at haccepted ⊢
      rw [haccepted]
      exact h.delivered

theorem delivered_writer (h : Inv s) {next : LiveStream} (hstep : s.stream.WriterStep next) :
    Delivered s.accepted next := by
  have hdelivered := h.delivered
  cases hstep with
  | openPipe hstage | goOn hstage | report hstage =>
    simp only [Delivered, hstage] at hdelivered
    exact hdelivered
  | refuse e hstage hrefusal =>
    rw [h.sound.refusal] at hrefusal
    cases hrefusal
  | obey hstage hcancelled =>
    simp only [Delivered, hstage] at hdelivered
    exact ⟨h.ended.mpr (h.cancelled hcancelled), .inl hdelivered.1⟩
  | header pipe hstage hwrite =>
    simp only [Delivered, hstage] at hdelivered
    obtain rfl := Sink.eq_append_of_write hwrite
    exact ⟨[], hdelivered.2.symm, by simp [hdelivered.1, Pcap.stream]⟩
  | failHeader pipe e hstage hwrite | failFrame t packet rest pipe e hstage hqueue hwrite =>
    rw [h.sound.write] at hwrite
    cases hwrite
  | frame t packet rest pipe hstage hqueue hwrite =>
    simp only [Delivered, hstage] at hdelivered ⊢
    obtain ⟨written, haccepted, hpipe⟩ := hdelivered
    obtain rfl := Sink.eq_append_of_write hwrite
    refine ⟨written ++ [(t, packet)], ?_, ?_⟩
    · rw [haccepted, hqueue, List.append_assoc, List.singleton_append]
    · rw [Sink.bytes_append, hpipe, stream_concat]
  | finish hstage hqueue hended =>
    simp only [Delivered, hstage] at hdelivered
    obtain ⟨written, haccepted, hpipe⟩ := hdelivered
    rw [hqueue, List.append_nil] at haccepted
    exact ⟨hended, .inr (by rw [haccepted, hpipe])⟩

theorem writer (h : Inv s) {next : LiveStream} (hstep : s.stream.WriterStep next) :
    Inv { s with stream := next } := by
  obtain ⟨hdropped, hended, hcancelled, hrunning, hopen⟩ := hstep.keeps
  obtain ⟨hqueued, hle⟩ := hstep.queued_eq h.queued
  refine ⟨h.sound.step hstep, hqueued, Nat.le_trans hle h.room, ?_, ?_, ?_, ?_, ?_, ?_,
    h.delivered_writer hstep⟩
  · rw [hdropped]
    exact h.dropped
  · rw [hended]
    exact h.ended
  · rw [hcancelled]
    exact h.cancelled
  · exact fun _ => hopen
  · exact fun _ => .inr hopen
  · exact fun hclosed => absurd (h.closed hclosed) hrunning

/-- The steps of closing come after the last frame and move none. -/
theorem closing (h : Inv s) {ended : Bool} (hended : ended = true) (cancelled released : Bool)
    {closing : ClosingStage} (hafter : closing ≠ .sending)
    (hwaiting : closing = .waiting → released = true ∨ s.stream.stage ≠ .opening)
    (hclosed : closing = .closed → s.stream.stage = .stopped) :
    Inv { s with stream := { s.stream with ended, cancelled, released }, closing } where
  sound := ⟨h.sound.refusal, h.sound.limit, h.sound.stage⟩
  queued := h.queued
  room := h.room
  dropped := h.dropped
  ended := ⟨fun _ => hafter, fun _ => hended⟩
  cancelled := fun _ => hafter
  attached := h.attached
  waiting := hwaiting
  closed := hclosed
  delivered := by
    have hdelivered := h.delivered
    unfold Delivered at hdelivered ⊢
    dsimp only
    split at hdelivered
    · exact hdelivered
    · exact ⟨hended, hdelivered.2⟩
    · exact hdelivered

theorem step (h : Inv s) {next : LiveRun} (hstep : Step s next) : Inv next := by
  have hended : s.closing ≠ .sending → s.stream.ended = true := h.ended.mpr
  cases hstep with
  | send t packet hsending => exact h.send hsending t packet
  | writer next hnext => exact h.writer (LiveStream.writerStep_of_eq_some hnext)
  | attachReader =>
    exact ⟨⟨h.sound.refusal, h.sound.limit, h.sound.stage⟩, h.queued, h.room, h.dropped, h.ended,
      h.cancelled, h.attached, h.waiting, h.closed, h.delivered⟩
  | endSending hnow =>
    exact h.closing rfl _ _ (by simp) (by simp) (by simp)
  | lookForReader hnow =>
    refine h.closing (hended (by simp [hnow])) _ _ ?_ ?_ ?_
    · split <;> simp
    · -- A reader that was reported has let the writer in.
      intro hwaiting
      split at hwaiting
      · exact .inr (h.attached ‹_›)
      · cases hwaiting
    · split <;> simp
  | cancel hnow =>
    exact h.closing (hended (by simp [hnow])) _ _ (by simp) (by simp) (by simp)
  | release hnow =>
    exact h.closing (hended (by simp [hnow])) _ _ (by simp) (fun _ => .inl rfl) (by simp)
  | close hnow hstopped =>
    exact h.closing (hended (by simp [hnow])) _ _ (by simp) (by simp) fun _ => hstopped
  | abandon hnow =>
    exact h.closing (hended (by simp [hnow])) _ _ (by simp) (by simp) (by simp)

theorem steps (h : Inv s) {last : LiveRun} (hsteps : Steps s last) : Inv last := by
  induction hsteps with
  | refl => exact h
  | tail _ hstep ih => exact ih.step hstep

/-- The accepted frames that the writer has not put into the pipe are missing at
its end. -/
theorem pipe_prefix (h : Inv s) : s.stream.pipe.bytes <+: Pcap.stream s.accepted := by
  have hdelivered := h.delivered
  unfold Delivered at hdelivered
  split at hdelivered
  · obtain ⟨written, haccepted, hpipe⟩ := hdelivered
    rw [haccepted, hpipe, Pcap.stream, Pcap.stream, List.flatMap_append, ← List.append_assoc]
    exact List.prefix_append _ _
  · obtain ⟨-, hpipe | hpipe⟩ := hdelivered
    · rw [hpipe]
      exact List.nil_prefix
    · rw [hpipe]
  · rw [hdelivered.1]
    exact List.nil_prefix

/-- A writer that stopped has written everything, or nothing at all. -/
theorem pipe_of_stopped (h : Inv s) (hstopped : s.stream.stage = .stopped) :
    s.stream.pipe.bytes = [] ∨ s.stream.pipe.bytes = Pcap.stream s.accepted := by
  have hdelivered := h.delivered
  simp only [Delivered, hstopped] at hdelivered
  exact hdelivered.2

end Inv

-- ---------------------------------------------------------------------------
-- Closing comes to an end
-- ---------------------------------------------------------------------------

theorem steps_runWriter (n : Nat) (s : LiveRun) :
    Steps s { s with stream := s.stream.runWriter n } := by
  induction n generalizing s with
  | zero => exact .refl
  | succ n ih =>
    rw [LiveStream.runWriter]
    cases hstep : s.stream.writerStep? with
    | none => exact .refl
    | some next => exact .head (.writer next hstep) (ih { s with stream := next })

/-- A writer that is waited for stops. -/
theorem Inv.steps_settle {s : LiveRun} (h : Inv s) (hnow : s.closing = .waiting) :
    Steps s { s with stream := s.stream.settle, closing := .closed } := by
  have hsteps : Steps s { s with stream := s.stream.settle } := steps_runWriter _ s
  have hsettled := h.steps hsteps
  have hstuck : s.stream.settle.writerStep? = none := LiveStream.writerStep?_settle h.queued
  have hover := LiveStream.over_of_writerStep?_eq_none hstuck
    (hsettled.ended.mpr (by simp [hnow])) (hsettled.waiting hnow)
  exact hsteps.tail (.close hnow (hsettled.sound.stage_eq_stopped hover))

/-- Closing without interruption is one of the ways in which its steps can fall. -/
theorem Inv.steps_close {s : LiveRun} (h : Inv s) (hsending : s.closing = .sending) :
    Steps s { s with stream := s.stream.close, closing := .closed } := by
  have hended : Steps s { s with stream := s.stream.endSending, closing := .ended } :=
    .single (.endSending hsending)
  have hlooked := hended.tail (.lookForReader rfl)
  by_cases hattached : s.stream.endSending.attached = true
  · simp only [hattached, if_true] at hlooked
    have hclosed := (h.steps hlooked).steps_settle rfl
    simp only [LiveStream.close, hattached, if_true]
    exact hlooked.trans hclosed
  · simp only [hattached] at hlooked
    have hreleased := (hlooked.tail (.cancel rfl)).tail (.release rfl)
    have hclosed := (h.steps hreleased).steps_settle rfl
    simp only [LiveStream.close, hattached]
    exact hreleased.trans hclosed

/-- Closing never waits for a reader: it can always go on to its end. -/
theorem Inv.exists_closed {s : LiveRun} (h : Inv s) (hgoing : s.closing ≠ .abandoned) :
    ∃ last, Steps s last ∧ last.closing = .closed := by
  have hnext : ∀ {next : LiveRun}, Step s next → next.closing ≠ .abandoned →
      next.closing.rank < s.closing.rank → ∃ last, Steps s last ∧ last.closing = .closed := by
    intro next hstep hgoing hrank
    obtain ⟨last, hsteps, hclosed⟩ := Inv.exists_closed (h.step hstep) hgoing
    exact ⟨last, .head hstep hsteps, hclosed⟩
  cases hnow : s.closing with
  | sending => exact ⟨_, h.steps_close hnow, rfl⟩
  | ended =>
    refine hnext (.lookForReader hnow) ?_ ?_
    · dsimp only
      split <;> simp
    · dsimp only
      split <;> simp [hnow, ClosingStage.rank]
  | unreported => exact hnext (.cancel hnow) (by simp) (by simp [hnow, ClosingStage.rank])
  | cancelled => exact hnext (.release hnow) (by simp) (by simp [hnow, ClosingStage.rank])
  | waiting => exact ⟨_, h.steps_settle hnow, rfl⟩
  | closed => exact ⟨s, .refl, hnow⟩
  | abandoned => exact absurd hnow hgoing
termination_by s.closing.rank

-- ---------------------------------------------------------------------------
-- Every interleaving
-- ---------------------------------------------------------------------------

/-- At every point of every interleaving: no more frames wait than the queue has
room for; a frame was dropped for each answer that it was; and the pipe holds the
front of the stream that the accepted frames make in the order in which they were
sent. When closing has seen the writer stop, the pipe has received nothing, or
that stream as a whole, and closing can always come that far unless it gave up
waiting. -/
theorem reachable_delivers {s : LiveRun} (h : Reachable s) :
    s.stream.queue.toList.length ≤ 256 ∧
    s.stream.dropped = (s.sent.countP fun answer => !answer.2) ∧
    s.stream.pipe.bytes <+: globalHeader ++ s.accepted.flatMap (fun p => record p.1 p.2) ∧
    (s.closing = .closed → s.stream.pipe.bytes = [] ∨
      s.stream.pipe.bytes = globalHeader ++ s.accepted.flatMap fun p => record p.1 p.2) ∧
    (s.closing ≠ .abandoned → ∃ last, Steps s last ∧ last.closing = .closed) := by
  have hinv : Inv s := inv_start.steps h
  refine ⟨?_, hinv.dropped, hinv.pipe_prefix, ?_, hinv.exists_closed⟩
  · rw [← hinv.queued]
    exact hinv.room
  · exact fun hclosed => hinv.pipe_of_stopped (hinv.closed hclosed)

/-- A reader that comes between the look for a reader and the call to stop: the
writer has been let in before the call and delivers everything. -/
theorem reachable_delivers_late_reader :
    let packet : List UInt8 := [0x04, 0x0E, 0x00]
    ∃ s, Reachable s ∧ s.stream.cancelled = true ∧ s.closing = .closed ∧
      (s.stream.pipe.bytes = [] ∨ s.stream.pipe.bytes = globalHeader ++ record ⟨1500⟩ packet) ∧
      s.stream.pipe.bytes ≠ [] := by
  intro packet
  have hstart : Steps {} {} := .refl
  have hsent := hstart.tail (.send ⟨1500⟩ packet rfl)
  have hlooked := (hsent.tail (.endSending rfl)).tail (.lookForReader rfl)
  have hopened := (hlooked.tail .attachReader).tail (.writer _ rfl)
  have hpermitted := hopened.tail (.writer _ rfl)
  have hreleased := (hpermitted.tail (.cancel rfl)).tail (.release rfl)
  have hreported := hreleased.tail (.writer _ rfl)
  have hwritten := (hreported.tail (.writer _ rfl)).tail (.writer _ rfl)
  have hclosed := (hwritten.tail (.writer _ rfl)).tail (.close rfl rfl)
  exact ⟨_, hclosed, rfl, rfl, (reachable_delivers hclosed).2.2.2.1 rfl, List.cons_ne_nil _ _⟩

end LiveRun

end BleCapture.Pcap
