import BleCapture.FileSystem
import BleCapture.LineReader
import BleCapture.Options.Basic
import BleCapture.Pcap.LiveStream
import BleCapture.Pcap.Writer
import BleCapture.Run.Log
import BleCapture.Time.Ticker

/-!
# Capture runs

A run reads lines until its input ends or it is interrupted. Accepted frames
go to the session, the capture file and the live stream, and in between a timer
asks for the status; at the end the session is closed and every requested
report is written. The outside world is part of the state: files before, files
after.
-/

namespace BleCapture

inductive RunError where
  | source (path : String) (cause : IoError)
  | create (path : String) (cause : IoError)
  | report (cause : ExportError)
  /-- The timer cannot be set, for the clock ends before the next report is due.
  The run stops at once, with everything left as it is. -/
  | clockOverflow
  deriving DecidableEq, Repr

def RunError.message : RunError → String
  | .source path cause => "cannot open input " ++ path ++ ": " ++ cause.message
  | .create path cause => "cannot create " ++ path ++ ": " ++ cause.message
  | .report cause => cause.message
  | .clockOverflow => "overflow when adding duration to instant"

/-- The status timer goes off once so many more lines were handled. -/
structure TimerEvent where
  lines : Nat
  now : Instant

structure Surroundings where
  files : FileSystem := {}
  /-- Lines on standard input, which is read when no input file is named. -/
  lines : List String := []
  /-- A stop signal ends the run once so many lines were handled, or all there
  are. Without one the run goes on to the end of its input. -/
  stopAfter : Option Nat := none
  /-- A reader opens the live pipe before the first line. -/
  readerWaiting : Bool := false
  /-- Why the live pipe cannot be opened for writing, if it cannot. -/
  pipeRefusal : Option IoError := none
  /-- What the live pipe takes; a reader that goes away leaves no more room. -/
  pipe : Sink := {}
  start : Timestamp := ⟨0⟩
  /-- When the line with a given number is handled. -/
  clock : Nat → Timestamp := fun _ => ⟨0⟩
  finish : Timestamp := ⟨0⟩
  /-- When the status timer is started, and when it goes off. -/
  timerStart : Instant := .zero
  timer : List TimerEvent := []

structure CaptureFile where
  path : String
  writer : Pcap.Writer

structure LivePipe where
  path : String
  stream : Pcap.LiveStream

structure RunState where
  files : FileSystem
  session : Session
  capture : Option CaptureFile := none
  live : Option LivePipe := none
  /-- Latest event first. -/
  log : List LogEvent := []

structure Outcome where
  result : Except RunError Session
  files : FileSystem
  /-- What went into the live pipe, if there was one. -/
  pipe : Option (List UInt8)
  /-- The error that the writer of the live pipe ended in. -/
  pipeFailure : Option IoError
  log : List LogEvent

namespace RunState

def note (s : RunState) (e : LogEvent) : RunState := { s with log := e :: s.log }

def noteAll (s : RunState) (es : List LogEvent) : RunState := es.foldl note s

/-- Creates the capture file. What fits of its header stays when not all of it
does. -/
def openCapture (s : RunState) (path : String) : RunState × Option IoError :=
  match s.files.create path with
  | .error e => (s, some e)
  | .ok (files, sink) =>
    match Pcap.Writer.create sink with
    | .ok writer =>
      ({ s with files := files.update path writer.sink, capture := some ⟨path, writer⟩ }, none)
    | .error e => ({ s with files := files.update path (sink.write Pcap.globalHeader).1 }, some e)

/-- Creates the live pipe and starts its stream. A reader that is waiting attaches
at once. -/
def openLive (s : RunState) (path : String) (stream : Pcap.LiveStream) :
    Except IoError RunState := do
  let files ← s.files.makePipe path
  return { s with files, live := some ⟨path, stream.settle⟩ }

/-- Adds an accepted packet to the capture file. After a failure no more
packets are saved. -/
def saveCapture (s : RunState) (now : Timestamp) (packet : List UInt8) : RunState :=
  match s.capture with
  | none => s
  | some c =>
    match c.writer.writePacket now packet with
    | (writer, none) =>
      { s with
        files := s.files.update c.path writer.sink
        capture := some { c with writer } }
    | (writer, some e) =>
      { s with files := s.files.update c.path writer.sink, capture := none }.note
        (.captureFailed e)

/-- Offers an accepted packet to the live stream, whose writer keeps up as long
as somebody reads. -/
def sendLive (s : RunState) (now : Timestamp) (packet : List UInt8) : RunState :=
  match s.live with
  | none => s
  | some l => { s with live := some { l with stream := (l.stream.send now packet).1.settle } }

def handleFrame (s : RunState) (f : Frame) (now : Timestamp) : RunState :=
  let s := s.noteAll f.faultEvent?.toList
  match s.session.recordFrame f now with
  | (session, none) => { s with session }
  | (session, some record) =>
    (({ s with session }.note (.packet record)).saveCapture now record.raw).sendLive now record.raw

/-- Handles one line. Lines that are no frames are skipped, malformed ones
counted. -/
def handleLine (tag : String) (s : RunState) (line : String) (now : Timestamp) : RunState :=
  match Line.decode? tag line with
  | none => s
  | some (.error e) => { s with session := s.session.recordError }.note (.rejectedLine e line)
  | some (.ok f) => s.handleFrame f now

/-- Handles the lines from number `n` on. -/
def handleLines (tag : String) (clock : Nat → Timestamp) : Nat → RunState → List String → RunState
  | _, s, [] => s
  | n, s, line :: rest => handleLines tag clock (n + 1) (handleLine tag s line (clock n)) rest

/-- Asks the ticker at `now`, and logs the totals and the rate if they are due. -/
def reportStatus (s : RunState) (ticker : Ticker) (now : Instant) : Ticker × RunState :=
  match ticker.tick now s.session.packets with
  | (some window, ticker) => (ticker, s.note (s.session.summary window.rate))
  | (none, ticker) => (ticker, s)

/-- Handles the lines from number `n` on, and the timer whenever it goes off. The
timer is set before anything is waited for. -/
def follow (tag : String) (clock : Nat → Timestamp) (ticker : Ticker) (n : Nat) (s : RunState)
    (lines : List String) : List TimerEvent → RunState × Option RunError
  | [] =>
    if ticker.nextDue.isNone then (s, some .clockOverflow)
    else (handleLines tag clock n s lines, none)
  | event :: timer =>
    if ticker.nextDue.isNone then (s, some .clockOverflow)
    else
      let ahead := lines.take event.lines
      let (ticker, s) := (handleLines tag clock n s ahead).reportStatus ticker event.now
      follow tag clock ticker (n + ahead.length) s (lines.drop event.lines) timer

def summarize (s : RunState) (now : Timestamp) : RunState :=
  let session := s.session.finish now
  let s := { s with session }.note (session.summary (session.packetRate now))
  match s.capture with
  | some c => s.note (.captureWritten c.writer.packets c.path)
  | none => s

def noteDropped (s : RunState) (frames : Nat) : RunState :=
  if 0 < frames then s.note (.liveDropped frames) else s

/-- Closes the live stream. The pipe is removed unless the writer ended in an error. -/
def closeLive (s : RunState) : RunState :=
  match s.live with
  | none => s
  | some l =>
    let s :=
      { s.noteDropped l.stream.dropped with live := some { l with stream := l.stream.close } }
    match l.stream.close.failure? with
    | some e => s.note (.liveNotClosed l.path e)
    | none =>
      match s.files.remove l.path with
      | .ok files => { s with files }
      | .error e => s.note (.liveNotClosed l.path e)

def writeReport (files : FileSystem) (session : Session) (now : Timestamp) (format : ExportFormat)
    (path : String) : FileSystem × Option ExportError :=
  match files.create path with
  | .error e => (files, some ⟨.output, e⟩)
  | .ok (files, sink) =>
    match (Document.buffered [] (format.document session now)).writeTo sink with
    | (sink, failure) => (files.update path sink, failure)

/-- Writes all reports. One that fails does not stop the others; the first
failure is given. -/
def writeReports (now : Timestamp) :
    RunState → List (ExportFormat × String) → RunState × Option ExportError
  | s, [] => (s, none)
  | s, (format, path) :: rest =>
    match writeReport s.files s.session now format path with
    | (files, none) =>
      writeReports now ({ s with files }.note (.exported format path)) rest
    | (files, some e) =>
      let (s, later) := writeReports now ({ s with files }.note (.exportFailed format path e)) rest
      (s, (some e).or later)

/-- The error that the writer of the live pipe ended in. -/
def pipeFailure? (s : RunState) : Option IoError := s.live.bind (·.stream.failure?)

def outcome (s : RunState) (result : Except RunError Session) : Outcome where
  result := result
  files := s.files
  pipe := s.live.map (·.stream.pipe.bytes)
  pipeFailure := s.pipeFailure?
  log := s.log.reverse

end RunState

namespace Surroundings

/-- A run that has opened nothing yet. -/
def fresh (w : Surroundings) (o : Options) : RunState :=
  { files := w.files, session := { start := w.start, filter := o.filter } }

/-- Opens the capture file, if the options ask for one. -/
def openOutput (w : Surroundings) (o : Options) : RunState × Option RunError :=
  match o.output with
  | none => (w.fresh o, none)
  | some path =>
    let (s, failure) := (w.fresh o).openCapture path
    (s, failure.map (.create path))

/-- A live stream to which nothing was sent. -/
def freshStream (w : Surroundings) : Pcap.LiveStream :=
  { reader := w.readerWaiting, refusal := w.pipeRefusal, pipe := w.pipe }

/-- Opens the capture file and the live pipe that the options ask for, in this
order. -/
def openOutputs (w : Surroundings) (o : Options) : RunState × Option RunError :=
  match w.openOutput o, o.fifo with
  | (s, none), some path =>
    match s.openLive path w.freshStream with
    | .ok s => (s, none)
    | .error e => (s, some (.create path e))
  | opened, _ => opened

/-- The lines up to the stop signal. -/
def reached (w : Surroundings) (lines : List String) : List String :=
  match w.stopAfter with
  | some n => lines.take n
  | none => lines

/-- The lines to handle, from the input file as it is by now or from standard
input. -/
def openSource (w : Surroundings) (o : Options) (files : FileSystem) :
    Except RunError (List String) :=
  match o.input with
  | none => .ok (w.reached w.lines)
  | some path =>
    match files.openFile path with
    | .ok bytes => .ok (w.reached (LineReader.lines [bytes] .endOfInput))
    | .error e => .error (.source path e)

/-- What the run says when it has handled its lines. -/
def ending (w : Surroundings) : LogEvent :=
  if w.stopAfter.isSome then .interrupted else .endOfInput

def run (w : Surroundings) (o : Options) : Outcome :=
  match w.openOutputs o with
  | (s, some e) => s.outcome (.error e)
  | (s, none) =>
    match w.openSource o s.files with
    | .error e => s.outcome (.error e)
    | .ok lines =>
      let ticker := Ticker.startingAt o.statusInterval w.timerStart
      match RunState.follow o.tag w.clock ticker 0 (s.note (.capturing o.tag)) lines w.timer with
      | (s, some e) => s.outcome (.error e)
      | (s, none) =>
        let s := ((s.note w.ending).summarize w.finish).closeLive
        match s.writeReports w.finish o.exports with
        | (s, some e) => s.outcome (.error (.report e))
        | (s, none) => s.outcome (.ok s.session)

end Surroundings

end BleCapture
