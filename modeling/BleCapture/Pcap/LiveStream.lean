import BleCapture.Pcap.Format
import BleCapture.Queue.Fifo

/-!
# Live streams

A PCAP stream into a named pipe. Opening a pipe for writing waits for a
reader, so a writer of its own takes the frames from a bounded queue, and
capture never waits. A frame that finds the queue full is dropped. A writer
that cannot open the pipe, or cannot write to it, ends in an error; one whose
reader goes away between two frames just stops.

The operations below are the single steps of three parties: the capture that
sends and finally closes, the writer, and the reader. Any interleaving of them
is possible.
-/

namespace BleCapture.Pcap

/-- Frames that may wait for the writer. -/
def liveCapacity : Nat := 256

inductive WriterStage where
  /-- Waiting for a reader to open the pipe. -/
  | opening
  /-- The pipe is open; cancellation is checked next. -/
  | opened
  /-- Not cancelled; the reader is reported next. -/
  | permitted
  /-- The reader is reported; the file header is written next. -/
  | attached
  | streaming
  | stopped
  | failed (cause : IoError)
  deriving DecidableEq, Repr

/-- The writer takes no more frames. -/
def WriterStage.over : WriterStage → Bool
  | .stopped | .failed _ => true
  | _ => false

structure LiveStream where
  queue : Fifo (Timestamp × List UInt8) := {}
  queued : Nat := 0
  stage : WriterStage := .opening
  reader : Bool := false
  /-- Closing holds the read end open to release the writer. -/
  released : Bool := false
  attached : Bool := false
  cancelled : Bool := false
  ended : Bool := false
  dropped : Nat := 0
  /-- Why the pipe cannot be opened for writing, if it cannot. -/
  refusal : Option IoError := none
  pipe : Sink := {}

namespace LiveStream

/-- Queues a frame, or drops it when the queue is full. A frame that comes when
sending has ended, or when the writer is over, is refused without being counted
as dropped. -/
def send (s : LiveStream) (t : Timestamp) (packet : List UInt8) : LiveStream × Bool :=
  if s.ended then (s, false)
  else if s.stage.over then ({ s with ended := true }, false)
  else if s.queued < liveCapacity then
    ({ s with queue := s.queue.push (t, packet), queued := s.queued + 1 }, true)
  else ({ s with dropped := s.dropped + 1 }, false)

/-- A reader opens the pipe and keeps it open. -/
def attachReader (s : LiveStream) : LiveStream := { s with reader := true }

/-- What becomes of the writer when a frame cannot be written. -/
def afterFailure (e : IoError) : WriterStage :=
  if e.kind = .brokenPipe then .stopped else .failed e

/-- The next step of the writer, unless it has to wait or is over. A pipe that
cannot be opened is found out at once, without waiting for a reader. -/
def writerStep? (s : LiveStream) : Option LiveStream :=
  match s.stage with
  | .opening =>
    match s.refusal with
    | some e => some { s with stage := .failed e }
    | none => if s.reader || s.released then some { s with stage := .opened } else none
  | .opened => some { s with stage := if s.cancelled then .stopped else .permitted }
  | .permitted => some { s with stage := .attached, attached := true }
  | .attached =>
    match s.pipe.write globalHeader with
    | (pipe, none) => some { s with stage := .streaming, pipe }
    | (pipe, some e) => some { s with stage := .failed e, pipe }
  | .streaming =>
    match s.queue.pop? with
    | some ((t, packet), rest) =>
      match s.pipe.write (record t packet) with
      | (pipe, none) => some { s with queue := rest, queued := s.queued - 1, pipe }
      | (pipe, some e) =>
        some { s with queue := rest, queued := s.queued - 1, pipe, stage := afterFailure e }
    | none => if s.ended then some { s with stage := .stopped } else none
  | .stopped | .failed _ => none

def runWriter : Nat → LiveStream → LiveStream
  | 0, s => s
  | n + 1, s =>
    match s.writerStep? with
    | some s' => runWriter n s'
    | none => s

/-- Lets the writer run until it waits or is over: five steps lead to the first
frame, each frame takes one, and stopping one more. -/
def settle (s : LiveStream) : LiveStream := runWriter (s.queued + 6) s

/-- The first step of closing: no more frames. -/
def endSending (s : LiveStream) : LiveStream := { s with ended := true }

/-- The second step of closing, unless a reader was reported: the writer is told
to stop. -/
def cancel (s : LiveStream) : LiveStream := { s with cancelled := true }

/-- The third step of closing, unless a reader was reported: a writer that still
waits for a reader is released. -/
def release (s : LiveStream) : LiveStream := { s with released := true }

/-- Closing without interruption, up to the end of the writer. -/
def close (s : LiveStream) : LiveStream :=
  let s := s.endSending
  (if s.attached then s else s.cancel.release).settle

/-- The error that the writer ended in. -/
def failure? (s : LiveStream) : Option IoError :=
  match s.stage with
  | .failed e => some e
  | _ => none

end LiveStream

end BleCapture.Pcap
