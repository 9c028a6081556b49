import BleCapture.Run.Capture

/-!
# Session runs

What can happen to a session, one step after the other: a line that the run
loop handles, a frame recorded directly, an error, the end of the capture. A
run gives the session together with all records that its steps returned.
-/

namespace BleCapture

inductive SessionStep where
  | line (text : String) (time : Timestamp)
  | frame (f : Frame) (time : Timestamp)
  | error
  | finish (time : Timestamp)

namespace SessionStep

/-- The frame that a step hands to the session. -/
def frame? (tag : String) : SessionStep → Option (Frame × Timestamp)
  | .line text time =>
    match Line.decode? tag text with
    | some (.ok f) => some (f, time)
    | _ => none
  | .frame f time => some (f, time)
  | _ => none

/-- Whether a step is a line that looks like a frame and is none. -/
def isRejectedLine (tag : String) : SessionStep → Bool
  | .line text _ =>
    match Line.decode? tag text with
    | some (.error _) => true
    | _ => false
  | _ => false

def isError : SessionStep → Bool
  | .error => true
  | _ => false

end SessionStep

namespace Session

/-- One step, and the record if it recorded a frame that the filter accepts. -/
def step (tag : String) (s : Session) : SessionStep → Session × Option PacketRecord
  | .line text time =>
    match Line.decode? tag text with
    | none => (s, none)
    | some (.error _) => (s.recordError, none)
    | some (.ok f) => s.recordFrame f time
  | .frame f time => s.recordFrame f time
  | .error => (s.recordError, none)
  | .finish time => (s.finish time, none)

/-- All steps in turn, and the records they returned. -/
def run (tag : String) : Session → List SessionStep → Session × List PacketRecord
  | s, [] => (s, [])
  | s, x :: rest =>
    let (next, record) := s.step tag x
    let (last, records) := run tag next rest
    (last, record.toList ++ records)

theorem run_cons (tag : String) (s : Session) (x : SessionStep) (rest : List SessionStep) :
    s.run tag (x :: rest) =
      (((s.step tag x).1.run tag rest).1,
        (s.step tag x).2.toList ++ ((s.step tag x).1.run tag rest).2) := rfl

theorem run_concat (tag : String) (s : Session) (steps : List SessionStep) (x : SessionStep) :
    s.run tag (steps ++ [x]) =
      (((s.run tag steps).1.step tag x).1,
        (s.run tag steps).2 ++ ((s.run tag steps).1.step tag x).2.toList) := by
  induction steps generalizing s with
  | nil => simp [run]
  | cons y rest ih => simp [run, ih]

/-- A step either hands over a frame, or touches nothing but the errors and the
end of the capture. -/
theorem step_cases (tag : String) (s : Session) (x : SessionStep) :
    (∃ f now, x.frame? tag = some (f, now) ∧ x.isRejectedLine tag = false ∧ x.isError = false ∧
      s.step tag x = s.recordFrame f now) ∨
    (x.frame? tag = none ∧ ∃ finished, s.step tag x =
      ({ s with
          finished
          errors := s.errors + (if x.isRejectedLine tag then 1 else 0) +
            if x.isError then 1 else 0 }, none)) := by
  cases x with
  | line text time =>
    rcases hd : Line.decode? tag text with _ | (e | f)
    · refine .inr ⟨by simp [SessionStep.frame?, hd], s.finished, ?_⟩
      simp [step, SessionStep.isRejectedLine, SessionStep.isError, hd]
    · refine .inr ⟨by simp [SessionStep.frame?, hd], s.finished, ?_⟩
      simp [step, recordError, SessionStep.isRejectedLine, SessionStep.isError, hd]
    · refine .inl ⟨f, time, by simp [SessionStep.frame?, hd], ?_, rfl, by simp [step, hd]⟩
      simp [SessionStep.isRejectedLine, hd]
  | frame f time => exact .inl ⟨f, time, rfl, rfl, rfl, rfl⟩
  | error => exact .inr ⟨rfl, s.finished, rfl⟩
  | finish time => exact .inr ⟨rfl, s.finished.or (some time), rfl⟩

/-- Recording a frame either adds it or leaves all but the errors alone. -/
theorem recordFrame_eq (s : Session) (f : Frame) (now : Timestamp) :
    s.recordFrame f now =
      if s.accepts f.reading then
        ((s.countFault f.reading).addFrame f now, some (s.recordOf f now))
      else (s.countFault f.reading, none) := by
  have hfilter : (s.countFault f.reading).filter = s.filter := by
    unfold countFault
    split <;> rfl
  simp only [recordFrame, accepts, recordOf, hfilter]
  rfl

end Session

namespace RunState

@[simp] theorem session_note (s : RunState) (e : LogEvent) : (s.note e).session = s.session := rfl

@[simp] theorem session_noteAll (s : RunState) (es : List LogEvent) :
    (s.noteAll es).session = s.session := by
  unfold noteAll
  induction es generalizing s with
  | nil => rfl
  | cons e rest ih => rw [List.foldl_cons, ih, session_note]

@[simp] theorem session_saveCapture (s : RunState) (now : Timestamp) (packet : List UInt8) :
    (s.saveCapture now packet).session = s.session := by
  unfold saveCapture
  split
  · rfl
  · split <;> rfl

@[simp] theorem session_sendLive (s : RunState) (now : Timestamp) (packet : List UInt8) :
    (s.sendLive now packet).session = s.session := by
  unfold sendLive
  split <;> rfl

theorem session_handleFrame (s : RunState) (f : Frame) (now : Timestamp) :
    (s.handleFrame f now).session = (s.session.recordFrame f now).1 := by
  simp only [handleFrame, session_noteAll]
  split <;> rename_i h <;> simp [h]

/-- Capture file and live stream do not touch the session: a line of a capture
run is a step of its session. -/
theorem session_handleLine (tag : String) (s : RunState) (line : String) (now : Timestamp) :
    (handleLine tag s line now).session = (s.session.step tag (.line line now)).1 := by
  simp only [handleLine, Session.step]
  rcases Line.decode? tag line with _ | (e | f)
  · rfl
  · rfl
  · exact session_handleFrame s f now

/-- The lines from number `n` on as steps of a session. -/
def lineSteps (clock : Nat → Timestamp) (n : Nat) (lines : List String) : List SessionStep :=
  (lines.zipIdx n).map fun (line, i) => .line line (clock i)

theorem lineSteps_cons (clock : Nat → Timestamp) (n : Nat) (line : String) (rest : List String) :
    lineSteps clock n (line :: rest) = .line line (clock n) :: lineSteps clock (n + 1) rest := rfl

theorem session_handleLines (tag : String) (clock : Nat → Timestamp) (n : Nat) (s : RunState)
    (lines : List String) :
    (handleLines tag clock n s lines).session =
      (s.session.run tag (lineSteps clock n lines)).1 := by
  induction lines generalizing n s with
  | nil => rfl
  | cons line rest ih =>
    rw [handleLines, ih, session_handleLine, lineSteps_cons, Session.run_cons]

end RunState

end BleCapture
