import BleCapture.Proofs.Session.Steps

/-!
# The loop of a run

Lines are handled one after the other, and the status timer goes off in between. It
only adds to the log. So what every line keeps, and every status report, the loop
keeps; and it handles all lines, unless the clock ends before the next report is due.
-/

namespace BleCapture.RunState

variable {tag : String} {clock : Nat → Timestamp} {s s' : RunState} {before : List String}

/-- What the loop does to `s` up to some point, and the lines that it has handled. -/
inductive Follows (tag : String) (clock : Nat → Timestamp) (s : RunState) :
    List String → RunState → Prop where
  | start : Follows tag clock s [] s
  | line {before : List String} {s' : RunState} (line : String) : Follows tag clock s before s' →
      Follows tag clock s (before ++ [line]) (handleLine tag s' line (clock before.length))
  | status {before : List String} {s' : RunState} (rate : Float) : Follows tag clock s before s' →
      Follows tag clock s before (s'.note (s'.session.summary rate))

theorem Follows.handleLines (h : Follows tag clock s before s') (lines : List String) :
    Follows tag clock s (before ++ lines) (handleLines tag clock before.length s' lines) := by
  induction lines generalizing before s' with
  | nil => rwa [List.append_nil]
  | cons line rest ih =>
    have hrest := ih (h.line line)
    rwa [List.append_assoc, List.singleton_append, List.length_append,
      List.length_singleton] at hrest

theorem Follows.reportStatus (h : Follows tag clock s before s') (ticker : Ticker) (now : Instant) :
    Follows tag clock s before (s'.reportStatus ticker now).2 := by
  unfold RunState.reportStatus
  split
  · exact h.status _
  · exact h

/-- The loop handles lines from the first on, and all of them if it comes to its end. -/
theorem Follows.follow (h : Follows tag clock s before s') (ticker : Ticker) (lines : List String)
    (timer : List TimerEvent) :
    let followed := follow tag clock ticker before.length s' lines timer
    ∃ handled, handled <+: lines ∧ Follows tag clock s (before ++ handled) followed.1 ∧
      (followed.2 = none → handled = lines) := by
  induction timer generalizing before s' ticker lines with
  | nil =>
    rw [RunState.follow]
    split
    · exact ⟨[], List.nil_prefix, by rwa [List.append_nil], fun hnone => nomatch hnone⟩
    · exact ⟨lines, List.prefix_rfl, h.handleLines lines, fun _ => rfl⟩
  | cons event timer ih =>
    rw [RunState.follow]
    split
    · exact ⟨[], List.nil_prefix, by rwa [List.append_nil], fun hnone => nomatch hnone⟩
    · have hahead := (h.handleLines (lines.take event.lines)).reportStatus ticker event.now
      obtain ⟨handled, ⟨rest, hrest⟩, hfollows, hend⟩ := ih hahead _ (lines.drop event.lines)
      rw [List.length_append] at hfollows hend
      rw [List.append_assoc] at hfollows
      refine ⟨lines.take event.lines ++ handled, ?_, hfollows, fun hnone => ?_⟩
      · exact ⟨rest, by rw [List.append_assoc, hrest, List.take_append_drop]⟩
      · rw [hend hnone, List.take_append_drop]

theorem eq_clockOverflow_of_follow {ticker : Ticker} {n : Nat} {lines : List String}
    {timer : List TimerEvent} {e : RunError}
    (h : (follow tag clock ticker n s lines timer).2 = some e) : e = .clockOverflow := by
  induction timer generalizing n s ticker lines with
  | nil =>
    rw [RunState.follow] at h
    split at h <;> cases h
    rfl
  | cons event timer ih =>
    rw [RunState.follow] at h
    split at h
    · cases h
      rfl
    · exact ih h

theorem lineSteps_concat (clock : Nat → Timestamp) (before : List String) (line : String) :
    lineSteps clock 0 (before ++ [line]) =
      lineSteps clock 0 before ++ [.line line (clock before.length)] := by
  simp [lineSteps, List.zipIdx_append]

theorem Follows.session_eq (h : Follows tag clock s before s') :
    s'.session = (s.session.run tag (lineSteps clock 0 before)).1 := by
  induction h with
  | start => rfl
  | line line _ ih => rw [session_handleLine, ih, lineSteps_concat, Session.run_concat]
  | status rate _ ih => exact ih

end BleCapture.RunState
