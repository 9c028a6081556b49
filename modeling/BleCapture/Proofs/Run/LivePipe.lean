import BleCapture.Proofs.Pcap.LiveWriter
import BleCapture.Proofs.Run.Steps

/-!
# Live pipes that are removed

The live pipe is made before the input is opened and removed after the last line,
unless its writer has failed. A run that closes it so leaves no pipe of its own,
whatever becomes of its reports. A run that cannot open its input, or cannot set its
timer, stops in between and leaves the pipe.
-/

namespace BleCapture

open FileSystem (Rewrites SameDirectories)

namespace RunState

variable {s s' : RunState} {path : String} {location : List String}

theorem pipe_outcome_eq_none_iff (s : RunState) (result : Except RunError Session) :
    (s.outcome result).pipe = none ↔ s.livePath? = none := by
  rw [outcome, livePath?, Option.map_eq_none_iff, Option.map_eq_none_iff]

/-- A run without a live pipe, and with the pipes that were there before it. -/
structure NoPipe (fs : FileSystem) (s : RunState) : Prop where
  live : s.livePath? = none
  pipe_iff : ∀ location, s.files.find? location = some .pipe ↔ fs.find? location = some .pipe

theorem NoPipe.of_continues {fs : FileSystem} (h : NoPipe fs s) (hcontinues : Continues s s') :
    NoPipe fs s' where
  live := hcontinues.live.trans h.live
  pipe_iff location := (hcontinues.files.pipe_iff location).trans (h.pipe_iff location)

theorem NoPipe.closeLive {fs : FileSystem} (h : NoPipe fs s) : NoPipe fs s.closeLive := by
  obtain ⟨-, hclose⟩ | ⟨l, files, events, hlive, -, -⟩ := closeLive_cases s
  · rwa [hclose]
  · have hnone := h.live
    rw [livePath?, hlive] at hnone
    cases hnone

/-- A run with a live pipe at the location. Elsewhere there are the pipes that were
there before. -/
structure Piped (fs : FileSystem) (path : String) (location : List String) (s : RunState) :
    Prop where
  live : s.livePath? = some path
  leads : s.files.LeadsTo path location
  pipe : s.files.find? location = some .pipe
  elsewhere : ∀ other, other ≠ location →
    (s.files.find? other = some .pipe ↔ fs.find? other = some .pipe)

theorem Piped.of_continues {fs : FileSystem} (h : Piped fs path location s)
    (hcontinues : Continues s s') : Piped fs path location s' where
  live := hcontinues.live.trans h.live
  leads := h.leads.congr hcontinues.files.sameDirectories
  pipe := (hcontinues.files.pipe_iff location).mpr h.pipe
  elsewhere other hother := (hcontinues.files.pipe_iff other).trans (h.elsewhere other hother)

/-- Nothing was put in the place of the pipe, so closing finds it there, and removes it
unless the writer has failed. -/
theorem Piped.closeLive {fs : FileSystem} (h : Piped fs path location s) :
    s.closeLive.livePath? = some path ∧
      (s.closeLive.pipeFailure? = none ∧ s.closeLive.files = s.files.erase location ∨
        s.closeLive.pipeFailure? ≠ none ∧ s.closeLive.files = s.files) := by
  have hlive := h.live
  obtain ⟨hnone, -⟩ | ⟨l, files, events, hsome, hremove, hclose⟩ := closeLive_cases s
  · rw [livePath?, hnone] at hlive
    cases hlive
  · rw [livePath?, hsome, Option.map_some, Option.some.injEq] at hlive
    subst hlive
    rw [h.leads.remove_pipe h.pipe] at hremove
    rw [hclose]
    obtain ⟨hfailure, hremove⟩ | ⟨rfl, hfailure | ⟨e, hremove⟩⟩ := hremove
    · cases hremove
      exact ⟨rfl, .inl ⟨hfailure, rfl⟩⟩
    · exact ⟨rfl, .inr ⟨hfailure, rfl⟩⟩
    · cases hremove

-- ---------------------------------------------------------------------------
-- The writer of the pipe
-- ---------------------------------------------------------------------------

/-- The writer of the live pipe, if there is one, fails exactly if it is refused. -/
def WriterFailsAs (refusal : Option IoError) (s : RunState) : Prop :=
  ∀ l, s.live = some l → l.stream.FailsAs refusal

namespace WriterFailsAs

variable {refusal : Option IoError}

theorem of_eq (h : WriterFailsAs refusal s) (hlive : s'.live = s.live) : WriterFailsAs refusal s' :=
  fun l hl => h l (hlive ▸ hl)

theorem sendLive (h : WriterFailsAs refusal s) (now : Timestamp) (packet : List UInt8) :
    WriterFailsAs refusal (s.sendLive now packet) := by
  unfold RunState.sendLive
  split
  · exact h
  · rename_i l hlive
    rintro _ ⟨⟩
    exact (h l hlive).send now packet

theorem handleLine (h : WriterFailsAs refusal s) (tag line : String) (now : Timestamp) :
    WriterFailsAs refusal (handleLine tag s line now) := by
  obtain ⟨events, -, ⟨-, hline⟩ | ⟨p, -, -, hline⟩⟩ := handleLine_cases tag s line now
  · rw [hline]
    exact h.of_eq rfl
  · rw [hline]
    refine WriterFailsAs.sendLive (h.of_eq ?_) now p.raw
    rw [live_saveCapture]

theorem follows {tag : String} {clock : Nat → Timestamp} {before : List String}
    (h : WriterFailsAs refusal s) (hfollows : Follows tag clock s before s') :
    WriterFailsAs refusal s' := by
  induction hfollows with
  | start => exact h
  | line line _ ih => exact ih.handleLine tag line _
  | status rate _ ih => exact ih.of_eq rfl

theorem closeLive (h : WriterFailsAs refusal s) : WriterFailsAs refusal s.closeLive := by
  obtain ⟨-, hclose⟩ | ⟨l, files, events, hlive, -, hclose⟩ := closeLive_cases s <;> rw [hclose]
  · exact h
  · rintro _ ⟨⟩
    exact (h l hlive).close

theorem pipeFailure?_eq (h : WriterFailsAs refusal s) (hlive : s.livePath? = some path) :
    s.pipeFailure? = refusal := by
  obtain ⟨l, hl, -⟩ := Option.map_eq_some_iff.mp hlive
  rw [pipeFailure?, hl]
  exact (h l hl).failure?_eq

end WriterFailsAs

end RunState

namespace Surroundings

open RunState (Continues NoPipe Piped WriterFailsAs)

variable {w : Surroundings} {o : Options} {s : RunState}

theorem noPipe_openOutput (w : Surroundings) (o : Options) :
    NoPipe w.files (w.openOutput o).1 where
  live := by rw [RunState.livePath?, live_openOutput, Option.map_none]
  pipe_iff := (rewrites_openOutput w o).pipe_iff

/-- A run that has opened its outputs has made the live pipe, if it has one. -/
theorem pipes_openOutputs (w : Surroundings) (o : Options) :
    NoPipe w.files (w.openOutputs o).1 ∨
    ∃ path location, (w.openOutputs o).2 = none ∧ o.fifo = some path ∧
      w.files.location? path = some location ∧
      Piped w.files path location (w.openOutputs o).1 ∧
      (w.pipe.limit = none → WriterFailsAs w.pipeRefusal (w.openOutputs o).1) := by
  have hnone := noPipe_openOutput w o
  have hopening := opening_openOutputs w o
  generalize w.openOutputs o = opened at hopening
  cases hopening with
  | noCapture hopened => exact .inl (by rwa [hopened] at hnone)
  | noPipe hopened => exact .inl (by rwa [hopened] at hnone)
  | capture hopened => exact .inl (by rwa [hopened] at hnone)
  | @live before _ path hopened hfifo hlive =>
    have hsame := (rewrites_openOutput w o).sameDirectories
    rw [hopened] at hnone hsame
    obtain ⟨files, hpipe, rfl⟩ := RunState.openLive_cases hlive
    obtain ⟨location, hleads, hdirectory, hstart, hfind⟩ := FileSystem.makePipe_cases hpipe
    have hmade : SameDirectories before.files files := .of_entry hstart hdirectory (by simp) hfind
    refine .inr ⟨path, location, rfl, hfifo, ?_, ⟨rfl, hleads.congr hmade, ?_, ?_⟩, ?_⟩
    · rw [← hsame.location?_eq, hleads.location?_eq]
    · dsimp only
      rw [hfind, if_pos rfl]
    · intro other hother
      dsimp only
      rw [hfind, if_neg hother]
      exact hnone.pipe_iff other
    · rintro hlimit _ ⟨⟩
      exact Pcap.LiveStream.FailsAs.start (s := w.freshStream) rfl hlimit

/-- The run up to its last line. -/
theorem continues_captured (w : Surroundings) (o : Options) (s : RunState) (lines : List String) :
    Continues s (w.captured o s lines) := by
  obtain ⟨handled, -, hfollows, -⟩ := w.follows_captured o s lines
  exact (Continues.events s s.session [_]).trans hfollows.continues

/-- The run up to the closing of the live pipe. -/
theorem continues_summarized (w : Surroundings) (o : Options) (s : RunState)
    (lines : List String) :
    Continues s (((w.captured o s lines).note w.ending).summarize w.finish) :=
  ((continues_captured w o s lines).trans (.events _ _ [_])).trans
    (RunState.continues_summarize _ w.finish)

theorem writerFailsAs_captured {refusal : Option IoError} (h : WriterFailsAs refusal s)
    (lines : List String) : WriterFailsAs refusal (w.captured o s lines) := by
  obtain ⟨handled, -, hfollows, -⟩ := w.follows_captured o s lines
  have hstart : WriterFailsAs refusal (s.note (.capturing o.tag)) := h.of_eq rfl
  exact hstart.follows hfollows

theorem writerFailsAs_closed {refusal : Option IoError} (h : WriterFailsAs refusal s)
    (lines : List String) : WriterFailsAs refusal (w.closed o s lines) := by
  have hcaptured : WriterFailsAs refusal ((w.captured o s lines).note w.ending) :=
    (writerFailsAs_captured h lines).of_eq rfl
  exact (hcaptured.of_eq (RunState.live_summarize _ w.finish)).closeLive

theorem noPipe_closed (h : NoPipe w.files s) (lines : List String) :
    NoPipe w.files (w.closed o s lines) :=
  (h.of_continues (continues_summarized w o s lines)).closeLive

theorem piped_closed {path : String} {location : List String} (h : Piped w.files path location s)
    (lines : List String) :
    (w.closed o s lines).livePath? = some path ∧
      ((w.closed o s lines).files.find? location = some .pipe ↔
        (w.closed o s lines).pipeFailure? ≠ none) ∧
      ∀ other, other ≠ location →
        ((w.closed o s lines).files.find? other = some .pipe ↔
          w.files.find? other = some .pipe) := by
  have hpiped := h.of_continues (continues_summarized w o s lines)
  have hdirectory : s.files.find? location ≠ some .directory := by simp [h.pipe]
  have hne := FileSystem.ne_nil_of_find? hdirectory
  obtain ⟨hlive, ⟨hfailure, hfiles⟩ | ⟨hfailure, hfiles⟩⟩ := hpiped.closeLive
  · refine ⟨hlive, ?_, fun other hother => ?_⟩
    · rw [closed, hfiles, FileSystem.find?_erase hne, if_pos rfl, hfailure]
      simp
    · rw [closed, hfiles, FileSystem.find?_erase hne, if_neg hother]
      exact hpiped.elsewhere other hother
  · refine ⟨hlive, iff_of_true ?_ hfailure, fun other hother => ?_⟩
    · rw [closed, hfiles]
      exact hpiped.pipe
    · rw [closed, hfiles]
      exact hpiped.elsewhere other hother

theorem exists_source_of_openSource {files : FileSystem} {e : RunError}
    (h : w.openSource o files = .error e) : ∃ input cause, e = .source input cause := by
  unfold openSource at h
  split at h
  · cases h
  · split at h <;> cases h
    exact ⟨_, _, rfl⟩

theorem noPipe_outcome (h : NoPipe w.files s) (result : Except RunError Session) :
    (s.outcome result).pipe = none ∧ ∀ location,
      (s.outcome result).files.find? location = some .pipe ↔
        w.files.find? location = some .pipe :=
  ⟨(s.pipe_outcome_eq_none_iff result).mpr h.live, h.pipe_iff⟩

/-- What a run makes of its live pipe and of others. The live pipe is at the location
after the run if it is left there. -/
structure LeavesPipe (w : Surroundings) (location : List String) (outcome : Outcome) : Prop where
  opened : outcome.pipe ≠ none
  left_iff : outcome.files.find? location = some .pipe ↔
    (∃ input cause, outcome.result = .error (.source input cause)) ∨
      outcome.result = .error .clockOverflow ∨ outcome.pipeFailure ≠ none
  failure : w.pipe.limit = none → outcome.pipeFailure = w.pipeRefusal
  elsewhere : ∀ other, other ≠ location →
    (outcome.files.find? other = some .pipe ↔ w.files.find? other = some .pipe)

section
variable {path : String} {location : List String}

/-- A run that stops with the live pipe open leaves it. -/
theorem leavesPipe_of_stopped (h : Piped w.files path location s)
    (hwriter : w.pipe.limit = none → WriterFailsAs w.pipeRefusal s) {e : RunError}
    (hstop : (∃ input cause, e = .source input cause) ∨ e = .clockOverflow) :
    w.LeavesPipe location (s.outcome (.error e)) where
  opened := by
    rw [ne_eq, RunState.pipe_outcome_eq_none_iff, h.live]
    exact Option.some_ne_none path
  left_iff := by
    refine iff_of_true h.pipe ?_
    obtain ⟨input, cause, rfl⟩ | rfl := hstop
    · exact .inl ⟨input, cause, rfl⟩
    · exact .inr (.inl rfl)
  failure := fun hlimit => (hwriter hlimit).pipeFailure?_eq h.live
  elsewhere := h.elsewhere

/-- Reports are files; the pipes after the run are those after closing. -/
theorem run_after_closed {lines : List String} (hopened : w.openOutputs o = (s, none))
    (hsource : w.openSource o s.files = .ok lines) (hfollowed : (w.followed o s lines).2 = none) :
    ((w.run o).pipe = none ↔ (w.closed o s lines).livePath? = none) ∧
    (w.run o).pipeFailure = (w.closed o s lines).pipeFailure? ∧
    (∀ location, (w.run o).files.find? location = some .pipe ↔
      (w.closed o s lines).files.find? location = some .pipe) ∧
    (∀ input cause, (w.run o).result ≠ .error (.source input cause)) ∧
    (w.run o).result ≠ .error .clockOverflow := by
  have hreported := RunState.reported_writeReports w.finish (w.closed o s lines) o.exports
  rw [run_of_followed hopened hsource hfollowed]
  refine ⟨?_, ?_, hreported.files.pipe_iff, fun input cause h => ?_, fun h => ?_⟩
  · rw [RunState.pipe_outcome_eq_none_iff, RunState.livePath?, hreported.live, ← RunState.livePath?]
  · rw [RunState.outcome, RunState.pipeFailure?, hreported.live, ← RunState.pipeFailure?]
  · simp only [RunState.outcome] at h
    split at h <;> cases h
  · simp only [RunState.outcome] at h
    split at h <;> cases h

/-- A run that closes the live pipe leaves it if its writer has failed. -/
theorem leavesPipe_of_followed (h : Piped w.files path location s)
    (hwriter : w.pipe.limit = none → WriterFailsAs w.pipeRefusal s) {lines : List String}
    (hopened : w.openOutputs o = (s, none)) (hsource : w.openSource o s.files = .ok lines)
    (hfollowed : (w.followed o s lines).2 = none) : w.LeavesPipe location (w.run o) := by
  obtain ⟨hpipe, hfailure, hleft, hsources, hoverflow⟩ := run_after_closed hopened hsource hfollowed
  obtain ⟨hlive, hgone, helsewhere⟩ := piped_closed (o := o) h lines
  refine ⟨?_, ?_, fun hlimit => ?_, fun other hother => ?_⟩
  · rw [ne_eq, hpipe, hlive]
    exact Option.some_ne_none path
  · rw [hleft, hgone, hfailure]
    constructor
    · exact fun h => .inr (.inr h)
    · rintro (⟨input, cause, h⟩ | h | h)
      · exact absurd h (hsources input cause)
      · exact absurd h hoverflow
      · exact h
  · rw [hfailure]
    exact (writerFailsAs_closed (hwriter hlimit) lines).pipeFailure?_eq hlive
  · exact (hleft other).trans (helsewhere other hother)

end

/-- What a run makes of pipes. Without a live pipe there are the same pipes as
before. Otherwise the live pipe is left behind exactly if the input cannot be
opened, the timer cannot be set, or the writer of the pipe has failed; where all that
is written to it finds room, the writer fails exactly if it cannot open the pipe. There
are the same pipes as before everywhere else. -/
theorem run_leaves_pipe_iff (w : Surroundings) (o : Options) :
    ((w.run o).pipe = none ∧
      ∀ location, (w.run o).files.find? location = some .pipe ↔
        w.files.find? location = some .pipe) ∨
    ∃ path location, (w.run o).pipe ≠ none ∧ o.fifo = some path ∧
      w.files.location? path = some location ∧
      ((w.run o).files.find? location = some .pipe ↔
        (∃ input cause, (w.run o).result = .error (.source input cause)) ∨
          (w.run o).result = .error .clockOverflow ∨ (w.run o).pipeFailure ≠ none) ∧
      (w.pipe.limit = none → (w.run o).pipeFailure = w.pipeRefusal) ∧
      ∀ other, other ≠ location →
        ((w.run o).files.find? other = some .pipe ↔ w.files.find? other = some .pipe) := by
  have hpipes := pipes_openOutputs w o
  suffices h : _ ∨ ∃ path location, o.fifo = some path ∧ w.files.location? path = some location ∧
      w.LeavesPipe location (w.run o) from
    h.imp id fun ⟨path, location, hfifo, hlocation, hleaves⟩ =>
      ⟨path, location, hleaves.opened, hfifo, hlocation, hleaves.left_iff, hleaves.failure,
        hleaves.elsewhere⟩
  rcases hopened : w.openOutputs o with ⟨s, _ | e⟩
  · rw [hopened] at hpipes
    rcases hsource : w.openSource o s.files with e | lines
    · -- The input cannot be opened.
      rw [run_of_openSource_error hopened hsource]
      exact hpipes.imp (fun hnone => noPipe_outcome hnone _)
        fun ⟨path, location, _, hfifo, hlocation, hpiped, hwriter⟩ => ⟨path, location, hfifo,
          hlocation, leavesPipe_of_stopped hpiped hwriter
            (.inl (exists_source_of_openSource hsource))⟩
    · rcases hfollowed : (w.followed o s lines).2 with _ | e
      · -- The run comes to its end.
        refine hpipes.imp (fun hnone => ?_)
          fun ⟨path, location, _, hfifo, hlocation, hpiped, hwriter⟩ => ⟨path, location, hfifo,
            hlocation, leavesPipe_of_followed hpiped hwriter hopened hsource hfollowed⟩
        obtain ⟨hpipe, -, hleft, -⟩ := run_after_closed hopened hsource hfollowed
        have hclosed := noPipe_closed (o := o) hnone lines
        exact ⟨hpipe.mpr hclosed.live, fun location =>
          (hleft location).trans (hclosed.pipe_iff location)⟩
      · -- The timer cannot be set.
        rw [run_of_followed_error hopened hsource hfollowed]
        have hcontinues := continues_captured w o s lines
        exact hpipes.imp (fun hnone => noPipe_outcome (hnone.of_continues hcontinues) _)
          fun ⟨path, location, _, hfifo, hlocation, hpiped, hwriter⟩ => ⟨path, location, hfifo,
            hlocation, leavesPipe_of_stopped (hpiped.of_continues hcontinues)
              (fun hlimit => writerFailsAs_captured (hwriter hlimit) lines) (.inr rfl)⟩
  · rw [hopened] at hpipes
    rw [run_of_openOutputs_error hopened]
    obtain hnone | ⟨path, location, hopen, -⟩ := hpipes
    · exact .inl (noPipe_outcome hnone _)
    · cases hopen

-- A pipe that may not be written is left by a run without an error.
example :
    let denied : IoError := ⟨.other, "Permission denied (os error 13)"⟩
    let outcome := ({ pipeRefusal := some denied } : Surroundings).run { fifo := some "live" }
    outcome.result.isOk = true ∧ outcome.files.find? ["live"] = some .pipe :=
  ⟨rfl, rfl⟩

theorem run_missing_input_leaves_pipe :
    let o : Options := { input := some "missing.log", fifo := some "live" }
    let outcome := ({} : Surroundings).run o
    outcome.result = .error (.source "missing.log" FileSystem.notFound) ∧
      outcome.pipe = some [] ∧ outcome.files.find? ["live"] = some .pipe :=
  ⟨rfl, rfl, rfl⟩

end Surroundings

end BleCapture
