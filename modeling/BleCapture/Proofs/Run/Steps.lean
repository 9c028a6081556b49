import BleCapture.Proofs.FileSystem
import BleCapture.Proofs.Run.Loop

/-!
# The parts of a run

What the parts of a run do to files, capture file, live pipe and log. Lines and
the summary write the capture file and nothing else; closing removes the live
pipe, unless its writer has failed; reports are written to their own paths. The
log only grows.
-/

namespace BleCapture

open FileSystem (Rewrites)

namespace RunState

variable {s s' : RunState}

/-- The path of the capture file as long as packets are saved. -/
def capturePaths (s : RunState) : List String := s.capture.toList.map CaptureFile.path

def livePath? (s : RunState) : Option String := s.live.map LivePipe.path

-- ---------------------------------------------------------------------------
-- While the capture goes on
-- ---------------------------------------------------------------------------

/-- What stays as it was while frames come in. -/
structure Continues (s s' : RunState) : Prop where
  files : Rewrites s.capturePaths s.files s'.files
  capture : s'.capturePaths ⊆ s.capturePaths
  live : s'.livePath? = s.livePath?
  log : s.log <:+ s'.log

namespace Continues

theorem refl (s : RunState) : Continues s s := ⟨.refl, List.Subset.refl _, rfl, List.suffix_rfl⟩

theorem trans {s'' : RunState} (h : Continues s s') (h' : Continues s' s'') : Continues s s'' where
  files := h.files.trans (h'.files.mono h.capture)
  capture := List.Subset.trans h'.capture h.capture
  live := h'.live.trans h.live
  log := h.log.trans h'.log

theorem events (s : RunState) (session : Session) (events : List LogEvent) :
    Continues s { s with session, log := events ++ s.log } :=
  ⟨.refl, List.Subset.refl _, rfl, List.suffix_append _ _⟩

theorem saveCapture (s : RunState) (now : Timestamp) (packet : List UInt8) :
    Continues s (s.saveCapture now packet) := by
  unfold RunState.saveCapture
  split
  · exact .refl s
  · rename_i c hcapture
    have hpath : s.capturePaths = [c.path] := by simp [capturePaths, hcapture]
    split
    · exact ⟨hpath ▸ FileSystem.rewrites_update _ _ _, by simp [capturePaths, hcapture], rfl,
        List.suffix_rfl⟩
    · exact ⟨hpath ▸ FileSystem.rewrites_update _ _ _, List.nil_subset _, rfl,
        List.suffix_cons _ _⟩

theorem sendLive (s : RunState) (now : Timestamp) (packet : List UInt8) :
    Continues s (s.sendLive now packet) := by
  unfold RunState.sendLive
  split
  · exact .refl s
  · rename_i l hlive
    exact ⟨.refl, List.Subset.refl _, by simp [livePath?, hlive], List.suffix_rfl⟩

end Continues

theorem noteAll_eq (s : RunState) (es : List LogEvent) :
    s.noteAll es = { s with log := es.reverse ++ s.log } := by
  unfold noteAll
  induction es generalizing s with
  | nil => rfl
  | cons e rest ih =>
    rw [List.foldl_cons, ih]
    simp [note]

theorem faultEvent?_ne_captureFailed (f : Frame) (e : IoError) :
    LogEvent.captureFailed e ∉ f.faultEvent?.toList := by
  unfold Frame.faultEvent?
  split
  · rcases f.leMetaEvent with cause | event
    · simp
    · rcases hfault : event.fault with _ | fault <;> simp
  · simp

/-- Everything that a line does: a frame that is accepted goes to the capture file
and to the live stream, and any other line is over with the session. -/
theorem handleLine_cases (tag : String) (s : RunState) (line : String) (now : Timestamp) :
    ∃ events, (∀ e, LogEvent.captureFailed e ∉ events) ∧
      let next := s.session.step tag (.line line now)
      let s' := { s with session := next.1, log := events ++ s.log }
      (next.2 = none ∧ handleLine tag s line now = s') ∨
      ∃ p, next.2 = some p ∧ p.time = now ∧
        handleLine tag s line now = (s'.saveCapture now p.raw).sendLive now p.raw := by
  simp only [handleLine, Session.step]
  rcases Line.decode? tag line with _ | (cause | f)
  · exact ⟨[], by simp, .inl ⟨rfl, rfl⟩⟩
  · exact ⟨[.rejectedLine cause line], by simp, .inl ⟨rfl, rfl⟩⟩
  · have hfaults := faultEvent?_ne_captureFailed f
    simp only [handleFrame, noteAll_eq, Session.recordFrame_eq]
    split
    · refine ⟨.packet (s.session.recordOf f now) :: f.faultEvent?.toList.reverse, ?_, .inr ?_⟩
      · simpa using hfaults
      · exact ⟨_, rfl, rfl, rfl⟩
    · exact ⟨f.faultEvent?.toList.reverse, by simpa using hfaults, .inl ⟨rfl, rfl⟩⟩

theorem continues_handleLine (tag : String) (s : RunState) (line : String) (now : Timestamp) :
    Continues s (handleLine tag s line now) := by
  obtain ⟨events, -, ⟨-, h⟩ | ⟨p, -, -, h⟩⟩ := handleLine_cases tag s line now
  · rw [h]
    exact .events s _ events
  · rw [h]
    exact ((Continues.events s _ events).trans (.saveCapture _ now p.raw)).trans (.sendLive _ now p.raw)

theorem Follows.continues {tag : String} {clock : Nat → Timestamp} {before : List String}
    (h : Follows tag clock s before s') : Continues s s' := by
  induction h with
  | start => exact .refl s
  | line line _ ih => exact ih.trans (continues_handleLine tag _ line _)
  | @status _ s' rate _ ih => exact ih.trans (.events s' s'.session [_])

theorem continues_summarize (s : RunState) (now : Timestamp) : Continues s (s.summarize now) := by
  unfold summarize
  dsimp only
  split
  · exact .events s _ [_, _]
  · exact .events s _ [_]

theorem capture_summarize (s : RunState) (now : Timestamp) :
    (s.summarize now).capture = s.capture := by
  unfold summarize
  dsimp only
  split <;> rfl

theorem live_saveCapture (s : RunState) (now : Timestamp) (packet : List UInt8) :
    (s.saveCapture now packet).live = s.live := by
  unfold saveCapture
  split
  · rfl
  · split <;> rfl

theorem live_summarize (s : RunState) (now : Timestamp) : (s.summarize now).live = s.live := by
  unfold summarize
  dsimp only
  split <;> rfl

theorem session_summarize (s : RunState) (now : Timestamp) :
    (s.summarize now).session = s.session.finish now := by
  unfold summarize
  dsimp only
  split <;> rfl

-- ---------------------------------------------------------------------------
-- Opening
-- ---------------------------------------------------------------------------

theorem rewrites_openCapture (s : RunState) (path : String) :
    Rewrites [path] s.files (s.openCapture path).1.files := by
  unfold openCapture
  split
  · exact .refl
  · rename_i files sink hcreate
    have hcreated := FileSystem.rewrites_create hcreate
    split <;> exact hcreated.trans (FileSystem.rewrites_update files path _)

@[simp] theorem live_openCapture (s : RunState) (path : String) :
    (s.openCapture path).1.live = s.live := by
  unfold openCapture
  split
  · rfl
  · split <;> rfl

@[simp] theorem session_openCapture (s : RunState) (path : String) :
    (s.openCapture path).1.session = s.session := by
  unfold openCapture
  split
  · rfl
  · split <;> rfl

theorem openLive_cases {path : String} {stream : Pcap.LiveStream}
    (h : s.openLive path stream = .ok s') :
    ∃ files, s.files.makePipe path = .ok files ∧
      s' = { s with files, live := some ⟨path, stream.settle⟩ } := by
  simp only [openLive, bind_eq_ok] at h
  obtain ⟨files, hpipe, h⟩ := h
  cases h
  exact ⟨files, hpipe, rfl⟩

-- ---------------------------------------------------------------------------
-- Closing
-- ---------------------------------------------------------------------------

theorem noteDropped_eq (s : RunState) (frames : Nat) :
    ∃ events, s.noteDropped frames = { s with log := events ++ s.log } := by
  unfold noteDropped
  split
  · exact ⟨[_], rfl⟩
  · exact ⟨[], rfl⟩

/-- Everything that closing does: it removes the live pipe, if there is one and its
writer has not failed. -/
theorem closeLive_cases (s : RunState) :
    (s.live = none ∧ s.closeLive = s) ∨
    ∃ l files events, s.live = some l ∧
      (l.stream.close.failure? = none ∧ s.files.remove l.path = .ok files ∨
        files = s.files ∧
          (l.stream.close.failure? ≠ none ∨ ∃ e, s.files.remove l.path = .error e)) ∧
      s.closeLive =
        { s with
          files
          live := some { l with stream := l.stream.close }
          log := events ++ s.log } := by
  unfold closeLive
  split
  · exact .inl ⟨‹_›, rfl⟩
  · rename_i l hlive
    obtain ⟨dropped, hdropped⟩ := noteDropped_eq s l.stream.dropped
    rw [hdropped]
    refine .inr ⟨l, ?_⟩
    rcases hfailure : l.stream.close.failure? with _ | e
    · rcases hremove : s.files.remove l.path with e | files
      · exact ⟨s.files, .liveNotClosed l.path e :: dropped, hlive, .inr ⟨rfl, .inr ⟨e, rfl⟩⟩, by
          simp only [hremove]; rfl⟩
      · exact ⟨files, dropped, hlive, .inl ⟨rfl, rfl⟩, by simp only [hremove]⟩
    · exact ⟨s.files, .liveNotClosed l.path e :: dropped, hlive,
        .inr ⟨rfl, .inl (Option.some_ne_none e)⟩, rfl⟩

theorem capture_closeLive (s : RunState) : s.closeLive.capture = s.capture := by
  obtain ⟨-, hclose⟩ | ⟨l, files, events, -, -, hclose⟩ := closeLive_cases s <;> rw [hclose]

theorem session_closeLive (s : RunState) : s.closeLive.session = s.session := by
  obtain ⟨-, hclose⟩ | ⟨l, files, events, -, -, hclose⟩ := closeLive_cases s <;> rw [hclose]

theorem log_closeLive (s : RunState) : s.log <:+ s.closeLive.log := by
  obtain ⟨-, hclose⟩ | ⟨l, files, events, -, -, hclose⟩ := closeLive_cases s
  · exact hclose.symm ▸ List.suffix_rfl
  · exact hclose.symm ▸ List.suffix_append _ _

/-- What writing reports leaves as it was. -/
structure Reported (paths : List String) (s s' : RunState) : Prop where
  files : Rewrites paths s.files s'.files
  session : s'.session = s.session
  live : s'.live = s.live
  log : s.log <:+ s'.log

theorem rewrites_writeReport (files : FileSystem) (session : Session) (now : Timestamp)
    (format : ExportFormat) (path : String) :
    Rewrites [path] files (writeReport files session now format path).1 := by
  unfold writeReport
  split
  · exact .refl
  · exact (FileSystem.rewrites_create ‹_›).trans (FileSystem.rewrites_update _ _ _)

theorem reported_writeReports (now : Timestamp) (s : RunState)
    (exports : List (ExportFormat × String)) :
    Reported (exports.map Prod.snd) s (s.writeReports now exports).1 := by
  induction exports generalizing s with
  | nil => exact ⟨.refl, rfl, rfl, List.suffix_rfl⟩
  | cons report rest ih =>
    obtain ⟨format, path⟩ := report
    have hreport := rewrites_writeReport s.files s.session now format path
    have hwritten := hreport.mono (List.cons_subset_cons path (List.nil_subset (rest.map Prod.snd)))
    have hrest : ∀ files event, (writeReport s.files s.session now format path).1 = files →
        Reported (path :: rest.map Prod.snd) s
          (({ s with files }.note event).writeReports now rest).1 := by
      rintro files event rfl
      have hlater := ih
        ({ s with files := (writeReport s.files s.session now format path).1 }.note event)
      exact ⟨hwritten.trans (hlater.files.mono (List.subset_cons_self _ _)), hlater.session,
        hlater.live, (List.suffix_cons _ _).trans hlater.log⟩
    rw [writeReports]
    split
    · exact hrest _ _ (congrArg Prod.fst ‹_›)
    · exact hrest _ _ (congrArg Prod.fst ‹_›)

end RunState

-- ---------------------------------------------------------------------------
-- Whole runs
-- ---------------------------------------------------------------------------

namespace Surroundings

variable {w : Surroundings} {o : Options} {s : RunState}

/-- The loop of the run, and whether it came to its end. -/
def followed (w : Surroundings) (o : Options) (s : RunState) (lines : List String) :
    RunState × Option RunError :=
  RunState.follow o.tag w.clock (.startingAt o.statusInterval w.timerStart) 0
    (s.note (.capturing o.tag)) lines w.timer

/-- The run after its last line. -/
def captured (w : Surroundings) (o : Options) (s : RunState) (lines : List String) : RunState :=
  (w.followed o s lines).1

/-- The run before its reports are written. -/
def closed (w : Surroundings) (o : Options) (s : RunState) (lines : List String) : RunState :=
  (((w.captured o s lines).note w.ending).summarize w.finish).closeLive

theorem follows_captured (w : Surroundings) (o : Options) (s : RunState) (lines : List String) :
    ∃ handled, handled <+: lines ∧
      RunState.Follows o.tag w.clock (s.note (.capturing o.tag)) handled (w.captured o s lines) ∧
      ((w.followed o s lines).2 = none → handled = lines) :=
  RunState.Follows.start.follow (.startingAt o.statusInterval w.timerStart) lines w.timer

theorem rewrites_openOutput (w : Surroundings) (o : Options) :
    Rewrites o.output.toList w.files (w.openOutput o).1.files := by
  unfold openOutput
  split
  · exact .refl
  · rename_i path houtput
    rw [houtput]
    exact RunState.rewrites_openCapture (w.fresh o) path

@[simp] theorem live_openOutput (w : Surroundings) (o : Options) :
    (w.openOutput o).1.live = none := by
  unfold openOutput
  split
  · rfl
  · exact RunState.live_openCapture _ _

@[simp] theorem session_openOutput (w : Surroundings) (o : Options) :
    (w.openOutput o).1.session = (w.fresh o).session := by
  unfold openOutput
  split
  · rfl
  · exact RunState.session_openCapture _ _

/-- Everything that opening the outputs can come to. -/
inductive Opening (w : Surroundings) (o : Options) : RunState × Option RunError → Prop where
  | noCapture {s : RunState} {e : RunError} : w.openOutput o = (s, some e) → Opening w o (s, some e)
  | noPipe {s : RunState} {path : String} {e : IoError} : w.openOutput o = (s, none) →
      o.fifo = some path → s.openLive path w.freshStream = .error e →
      Opening w o (s, some (.create path e))
  | capture {s : RunState} : w.openOutput o = (s, none) → o.fifo = none → Opening w o (s, none)
  | live {s s' : RunState} {path : String} : w.openOutput o = (s, none) → o.fifo = some path →
      s.openLive path w.freshStream = .ok s' → Opening w o (s', none)

theorem opening_openOutputs (w : Surroundings) (o : Options) : Opening w o (w.openOutputs o) := by
  unfold openOutputs
  rcases hopened : w.openOutput o with ⟨s, _ | e⟩
  · rcases hfifo : o.fifo with _ | path
    · exact .capture hopened hfifo
    · rcases hlive : s.openLive path w.freshStream with e | s'
      · simpa only [hlive] using Opening.noPipe hopened hfifo hlive
      · simpa only [hlive] using Opening.live hopened hfifo hlive
  · exact .noCapture hopened

/-- The outputs that are open when lines are read. -/
theorem openOutputs_eq_none (h : w.openOutputs o = (s, none)) :
    (w.openOutput o = (s, none) ∧ o.fifo = none) ∨
    ∃ before path files, w.openOutput o = (before, none) ∧ o.fifo = some path ∧
      before.files.makePipe path = .ok files ∧
      s = { before with files, live := some ⟨path, w.freshStream.settle⟩ } := by
  have hopening := opening_openOutputs w o
  rw [h] at hopening
  cases hopening with
  | capture hcapture hfifo => exact .inl ⟨hcapture, hfifo⟩
  | live hcapture hfifo hlive =>
    obtain ⟨files, hpipe, rfl⟩ := RunState.openLive_cases hlive
    exact .inr ⟨_, _, files, hcapture, hfifo, hpipe, rfl⟩

theorem session_of_openOutputs (h : w.openOutputs o = (s, none)) :
    s.session = (w.fresh o).session := by
  have houtput := session_openOutput w o
  obtain ⟨hcapture, -⟩ | ⟨before, path, files, hcapture, -, -, rfl⟩ :=
    openOutputs_eq_none h <;> rw [hcapture] at houtput <;> exact houtput

theorem log_closed (w : Surroundings) (o : Options) (s : RunState) (lines : List String) :
    (w.captured o s lines).log <:+ (w.closed o s lines).log := by
  have hnoted : ∀ e, (w.captured o s lines).log <:+ ((w.captured o s lines).note e).log :=
    fun e => List.suffix_cons e _
  exact ((hnoted _).trans (RunState.continues_summarize _ w.finish).log).trans
    (RunState.log_closeLive _)

theorem session_closed (w : Surroundings) (o : Options) (s : RunState) (lines : List String) :
    (w.closed o s lines).session = (w.captured o s lines).session.finish w.finish := by
  rw [closed, RunState.session_closeLive, RunState.session_summarize, RunState.session_note]

theorem capture_closed (w : Surroundings) (o : Options) (s : RunState) (lines : List String) :
    (w.closed o s lines).capture = (w.captured o s lines).capture := by
  rw [closed, RunState.capture_closeLive, RunState.capture_summarize]
  rfl

theorem run_of_openOutputs_error {e : RunError} (h : w.openOutputs o = (s, some e)) :
    w.run o = s.outcome (.error e) := by
  simp only [run, h]

theorem run_of_openSource_error {e : RunError} (h : w.openOutputs o = (s, none))
    (hsource : w.openSource o s.files = .error e) : w.run o = s.outcome (.error e) := by
  simp only [run, h, hsource]

theorem run_of_followed_error {lines : List String} {e : RunError}
    (h : w.openOutputs o = (s, none)) (hsource : w.openSource o s.files = .ok lines)
    (hfollowed : (w.followed o s lines).2 = some e) :
    w.run o = (w.captured o s lines).outcome (.error .clockOverflow) := by
  obtain rfl := RunState.eq_clockOverflow_of_follow hfollowed
  have hloop : w.followed o s lines = (w.captured o s lines, some .clockOverflow) :=
    Prod.ext rfl hfollowed
  rw [followed] at hloop
  simp only [run, h, hsource, hloop]

theorem run_of_followed {lines : List String} (h : w.openOutputs o = (s, none))
    (hsource : w.openSource o s.files = .ok lines) (hfollowed : (w.followed o s lines).2 = none) :
    w.run o =
      let reported := (w.closed o s lines).writeReports w.finish o.exports
      reported.1.outcome (match reported.2 with
        | some e => .error (.report e)
        | none => .ok reported.1.session) := by
  have hloop : w.followed o s lines = (w.captured o s lines, none) := Prod.ext rfl hfollowed
  rw [followed] at hloop
  simp only [run, h, hsource, hloop, closed]
  split <;> rename_i hreports <;> simp only [hreports]

/-- What was noted up to the last line is in the log of the run. -/
theorem mem_log_run {lines : List String} (h : w.openOutputs o = (s, none))
    (hsource : w.openSource o s.files = .ok lines) {e : LogEvent}
    (he : e ∈ (w.captured o s lines).log) : e ∈ (w.run o).log := by
  rcases hfollowed : (w.followed o s lines).2 with _ | e'
  · have hreported := RunState.reported_writeReports w.finish (w.closed o s lines) o.exports
    rw [run_of_followed h hsource hfollowed]
    exact List.mem_reverse.mpr (((log_closed w o s lines).trans hreported.log).subset he)
  · rw [run_of_followed_error h hsource hfollowed]
    exact List.mem_reverse.mpr he

/-- A run that gives its session has read its lines to the end. -/
theorem run_eq_ok {session : Session} (h : (w.run o).result = .ok session) :
    ∃ s lines, w.openOutputs o = (s, none) ∧ w.openSource o s.files = .ok lines ∧
      (w.followed o s lines).2 = none ∧
      session = (w.captured o s lines).session.finish w.finish := by
  rcases hopened : w.openOutputs o with ⟨s, _ | e⟩
  · rcases hsource : w.openSource o s.files with e | lines
    · rw [run_of_openSource_error hopened hsource] at h
      cases h
    · rcases hfollowed : (w.followed o s lines).2 with _ | e
      · refine ⟨s, lines, rfl, hsource, hfollowed, ?_⟩
        rw [run_of_followed hopened hsource hfollowed] at h
        simp only [RunState.outcome] at h
        split at h <;> cases h
        rw [(RunState.reported_writeReports w.finish (w.closed o s lines) o.exports).session,
          session_closed]
      · rw [run_of_followed_error hopened hsource hfollowed] at h
        cases h
  · rw [run_of_openOutputs_error hopened] at h
    cases h

end Surroundings

end BleCapture
