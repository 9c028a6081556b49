import BleCapture.Pcap.LiveStream
import BleCapture.Proofs.Sink

/-!
# The writer of a live stream

Left to itself, the writer waits for a reader or is over after a bounded number of
steps. It ends in an error only if the pipe cannot be opened or does not take what is
written to it.
-/

namespace BleCapture.Pcap

namespace LiveStream

/-- Everything that a step of the writer can do. -/
inductive WriterStep (s : LiveStream) : LiveStream → Prop where
  | refuse (e : IoError) : s.stage = .opening → s.refusal = some e →
      WriterStep s { s with stage := .failed e }
  | openPipe : s.stage = .opening → s.refusal = none → s.reader = true ∨ s.released = true →
      WriterStep s { s with stage := .opened }
  | obey : s.stage = .opened → s.cancelled = true → WriterStep s { s with stage := .stopped }
  | goOn : s.stage = .opened → s.cancelled = false → WriterStep s { s with stage := .permitted }
  | report : s.stage = .permitted → WriterStep s { s with stage := .attached, attached := true }
  | header (pipe : Sink) : s.stage = .attached → s.pipe.write globalHeader = (pipe, none) →
      WriterStep s { s with stage := .streaming, pipe }
  | failHeader (pipe : Sink) (e : IoError) : s.stage = .attached →
      s.pipe.write globalHeader = (pipe, some e) →
      WriterStep s { s with stage := .failed e, pipe }
  | frame (t : Timestamp) (packet : List UInt8) (rest : Fifo (Timestamp × List UInt8))
      (pipe : Sink) : s.stage = .streaming → s.queue.toList = (t, packet) :: rest.toList →
      s.pipe.write (record t packet) = (pipe, none) →
      WriterStep s { s with queue := rest, queued := s.queued - 1, pipe }
  | failFrame (t : Timestamp) (packet : List UInt8) (rest : Fifo (Timestamp × List UInt8))
      (pipe : Sink) (e : IoError) : s.stage = .streaming →
      s.queue.toList = (t, packet) :: rest.toList →
      s.pipe.write (record t packet) = (pipe, some e) →
      WriterStep s { s with
        queue := rest, queued := s.queued - 1, pipe, stage := afterFailure e }
  | finish : s.stage = .streaming → s.queue.toList = [] → s.ended = true →
      WriterStep s { s with stage := .stopped }

theorem writerStep_of_eq_some {s next : LiveStream} (h : s.writerStep? = some next) :
    WriterStep s next := by
  unfold writerStep? at h
  split at h
  · rename_i hstage
    split at h
    · cases h
      exact .refuse _ hstage ‹_›
    · rename_i hrefusal
      split at h
      · rename_i hread
        cases h
        exact .openPipe hstage hrefusal (by simpa using hread)
      · cases h
  · rename_i hstage
    cases h
    split
    · exact .obey hstage ‹_›
    · exact .goOn hstage (by simpa using ‹¬ s.cancelled = true›)
  · cases h
    exact .report ‹_›
  · rename_i hstage
    split at h <;> rename_i hwrite <;> cases h
    · exact .header _ hstage hwrite
    · exact .failHeader _ _ hstage hwrite
  · rename_i hstage
    split at h
    · rename_i t packet rest hpop
      have hqueue := Fifo.toList_of_pop? hpop
      split at h <;> rename_i hwrite <;> cases h
      · exact .frame t packet rest _ hstage hqueue hwrite
      · exact .failFrame t packet rest _ _ hstage hqueue hwrite
    · rename_i hpop
      split at h
      · cases h
        exact .finish hstage ((Fifo.pop?_eq_none_iff _).mp hpop) ‹_›
      · cases h
  · cases h
  · cases h

/-- After the last frame was sent, the writer goes on until it is over, as long as it
can open the pipe. -/
theorem over_of_writerStep?_eq_none {s : LiveStream} (h : s.writerStep? = none)
    (hended : s.ended = true) (hopen : s.released = true ∨ s.stage ≠ .opening) :
    s.stage.over = true := by
  unfold writerStep? at h
  split at h
  · rename_i hstage
    split at h <;> simp_all
  · cases h
  · cases h
  · split at h <;> cases h
  · split at h
    · split at h <;> cases h
    · simp [hended] at h
  · rename_i hstage
    rw [hstage]
    rfl
  · rename_i hstage
    rw [hstage]
    rfl

end LiveStream

/-- Steps to the end of the writer, if no frame waits. -/
def WriterStage.rank : WriterStage → Nat
  | .opening => 5
  | .opened => 4
  | .permitted => 3
  | .attached => 2
  | .streaming => 1
  | .stopped | .failed _ => 0

namespace LiveStream

/-- At most so many steps are left to the writer if nothing more is sent. -/
def remaining (s : LiveStream) : Nat := s.stage.rank + s.queue.toList.length

theorem rank_afterFailure (e : IoError) : (afterFailure e).rank = 0 := by
  unfold afterFailure
  split <;> rfl

theorem WriterStep.remaining_lt {s next : LiveStream} (h : WriterStep s next) :
    next.remaining < s.remaining := by
  cases h with
  | frame _ _ _ _ hstage hqueue => simp [remaining, hqueue]
  | failFrame _ _ _ _ e hstage hqueue =>
    simp only [remaining, hqueue, rank_afterFailure, List.length_cons]
    omega
  | refuse _ hstage | openPipe hstage | obey hstage | goOn hstage | report hstage
  | header _ hstage | failHeader _ _ hstage | finish hstage =>
    simp [remaining, hstage, WriterStage.rank]

/-- What no step of the writer touches. It never waits for a reader again. -/
theorem WriterStep.keeps {s next : LiveStream} (h : WriterStep s next) :
    next.dropped = s.dropped ∧ next.ended = s.ended ∧ next.cancelled = s.cancelled ∧
      s.stage ≠ .stopped ∧ next.stage ≠ .opening := by
  have hfailure : ∀ e, afterFailure e ≠ .opening := by
    intro e
    unfold afterFailure
    split <;> simp
  cases h with
  | refuse _ hstage | openPipe hstage | obey hstage | goOn hstage | report hstage
  | header _ hstage | failHeader _ _ hstage | frame _ _ _ _ hstage | failFrame _ _ _ _ _ hstage
  | finish hstage => simp [hstage, hfailure]

theorem WriterStep.queued_eq {s next : LiveStream} (h : WriterStep s next)
    (hqueued : s.queued = s.queue.toList.length) :
    next.queued = next.queue.toList.length ∧ next.queued ≤ s.queued := by
  cases h with
  | frame _ _ _ _ _ hqueue | failFrame _ _ _ _ _ _ hqueue => simp [hqueued, hqueue]
  | _ => exact ⟨hqueued, Nat.le_refl _⟩

theorem writerStep?_runWriter {n : Nat} {s : LiveStream} (h : s.remaining ≤ n) :
    (runWriter n s).writerStep? = none := by
  induction n generalizing s with
  | zero =>
    cases hstep : s.writerStep? with
    | none => exact hstep
    | some next =>
      have hlt := (writerStep_of_eq_some hstep).remaining_lt
      omega
  | succ n ih =>
    rw [runWriter]
    cases hstep : s.writerStep? with
    | none => exact hstep
    | some next =>
      have hlt := (writerStep_of_eq_some hstep).remaining_lt
      exact ih (by omega)

/-- Settling leaves the writer waiting or over. -/
theorem writerStep?_settle {s : LiveStream} (h : s.queued = s.queue.toList.length) :
    s.settle.writerStep? = none := by
  refine writerStep?_runWriter ?_
  have hrank : s.stage.rank ≤ 5 := by
    unfold WriterStage.rank
    split <;> decide
  rw [remaining, h]
  omega

-- ---------------------------------------------------------------------------
-- Writers that do not fail
-- ---------------------------------------------------------------------------

/-- The pipe can be opened and takes all that is written to it, and the writer has not
failed. -/
structure Sound (s : LiveStream) : Prop where
  refusal : s.refusal = none
  limit : s.pipe.limit = none
  stage : ∀ e, s.stage ≠ .failed e

namespace Sound

variable {s : LiveStream}

theorem write (h : Sound s) (bs : List UInt8) : s.pipe.write bs = (s.pipe.append bs, none) :=
  Sink.write_of_unlimited h.limit bs

theorem step (h : Sound s) {next : LiveStream} (hstep : WriterStep s next) : Sound next := by
  cases hstep with
  | refuse e _ hrefusal =>
    rw [h.refusal] at hrefusal
    cases hrefusal
  | failHeader _ _ _ hwrite | failFrame _ _ _ _ _ _ _ hwrite =>
    rw [h.write] at hwrite
    cases hwrite
  | header pipe _ hwrite =>
    obtain rfl := Sink.eq_append_of_write hwrite
    exact ⟨h.refusal, h.limit, by simp⟩
  | frame _ _ _ pipe _ _ hwrite =>
    obtain rfl := Sink.eq_append_of_write hwrite
    exact ⟨h.refusal, h.limit, h.stage⟩
  | openPipe | obey | goOn | report | finish => exact ⟨h.refusal, h.limit, by simp⟩

theorem runWriter (h : Sound s) (n : Nat) : Sound (s.runWriter n) := by
  induction n generalizing s with
  | zero => exact h
  | succ n ih =>
    rw [LiveStream.runWriter]
    cases hstep : s.writerStep? with
    | none => exact h
    | some next => exact ih (h.step (writerStep_of_eq_some hstep))

theorem send (h : Sound s) (t : Timestamp) (packet : List UInt8) : Sound (s.send t packet).1 := by
  unfold LiveStream.send
  split
  · exact h
  · split
    · exact ⟨h.refusal, h.limit, h.stage⟩
    · split <;> exact ⟨h.refusal, h.limit, h.stage⟩

theorem settle (h : Sound s) : Sound s.settle := h.runWriter _

theorem close (h : Sound s) : Sound s.close := by
  unfold LiveStream.close
  dsimp only
  split <;> exact Sound.settle ⟨h.refusal, h.limit, h.stage⟩

theorem stage_eq_stopped (h : Sound s) (hover : s.stage.over = true) : s.stage = .stopped := by
  unfold WriterStage.over at hover
  split at hover
  · assumption
  · exact absurd ‹_› (h.stage _)
  · cases hover

theorem failure?_eq_none (h : Sound s) : s.failure? = none := by
  unfold failure?
  split
  · exact absurd ‹_› (h.stage _)
  · rfl

end Sound

-- ---------------------------------------------------------------------------
-- Writers that have failed
-- ---------------------------------------------------------------------------

theorem failure?_eq_some_iff {s : LiveStream} {e : IoError} :
    s.failure? = some e ↔ s.stage = .failed e := by
  unfold failure?
  split <;> simp_all

theorem writerStep?_of_failure {s : LiveStream} {e : IoError} (h : s.failure? = some e) :
    s.writerStep? = none := by
  rw [writerStep?, failure?_eq_some_iff.mp h]

theorem settle_of_failure {s : LiveStream} {e : IoError} (h : s.failure? = some e) :
    s.settle = s := by
  rw [settle, runWriter, writerStep?_of_failure h]

/-- A pipe that cannot be opened is no pipe that a reader could be waited for. -/
theorem failure?_settle_of_refusal {s : LiveStream} {e : IoError} (hstage : s.stage = .opening)
    (h : s.refusal = some e) : s.settle.failure? = some e := by
  have hstep : s.writerStep? = some { s with stage := .failed e } := by
    rw [writerStep?, hstage]
    simp only [h]
  have hfailed : ({ s with stage := .failed e } : LiveStream).failure? = some e := rfl
  rw [settle, runWriter, hstep]
  dsimp only
  rw [runWriter, writerStep?_of_failure hfailed]
  exact hfailed

theorem failure?_send {s : LiveStream} {e : IoError} (h : s.failure? = some e) (t : Timestamp)
    (packet : List UInt8) : (s.send t packet).1.failure? = some e := by
  unfold send
  split
  · exact h
  · split
    · exact h
    · split <;> exact h

theorem failure?_close {s : LiveStream} {e : IoError} (h : s.failure? = some e) :
    s.close.failure? = some e := by
  unfold close
  dsimp only
  split
  · rwa [settle_of_failure (s := s.endSending) h]
  · rwa [settle_of_failure (s := s.endSending.cancel.release) h]

-- ---------------------------------------------------------------------------
-- Writers whose pipe takes everything
-- ---------------------------------------------------------------------------

/-- The writer fails exactly if its pipe cannot be opened, and it has found out whether
it can. -/
def FailsAs (refusal : Option IoError) (s : LiveStream) : Prop :=
  match refusal with
  | none => s.Sound
  | some e => s.failure? = some e

namespace FailsAs

variable {refusal : Option IoError} {s : LiveStream}

theorem start (hstage : s.stage = .opening) (hlimit : s.pipe.limit = none) :
    FailsAs s.refusal s.settle := by
  rcases hrefusal : s.refusal with _ | e
  · exact Sound.settle ⟨hrefusal, hlimit, by simp [hstage]⟩
  · exact failure?_settle_of_refusal hstage hrefusal

theorem send (h : FailsAs refusal s) (t : Timestamp) (packet : List UInt8) :
    FailsAs refusal (s.send t packet).1.settle := by
  cases refusal with
  | none => exact (Sound.send h t packet).settle
  | some e =>
    have hfailed := failure?_send h t packet
    rw [settle_of_failure hfailed]
    exact hfailed

theorem close (h : FailsAs refusal s) : FailsAs refusal s.close := by
  cases refusal with
  | none => exact Sound.close h
  | some e => exact failure?_close h

theorem failure?_eq (h : FailsAs refusal s) : s.failure? = refusal := by
  cases refusal with
  | none => exact Sound.failure?_eq_none h
  | some e => exact h

end FailsAs

end LiveStream

end BleCapture.Pcap
