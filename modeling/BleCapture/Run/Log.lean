import BleCapture.Options.Basic
import BleCapture.Session

/-!
# Run log

What a capture reports about itself while it runs.
-/

namespace BleCapture

inductive LogLevel where
  | error
  | warn
  | info
  | debug
  deriving DecidableEq, Repr

def LogLevel.name : LogLevel → String
  | .error => "ERROR"
  | .warn => "WARN"
  | .info => "INFO"
  | .debug => "DEBUG"

inductive LogEvent where
  | capturing (tag : String)
  | rejectedLine (cause : Line.Error) (line : String)
  | fault (cause : Report.Fault) (whole : Bool)
  | packet (record : PacketRecord)
  | captureFailed (cause : IoError)
  | endOfInput
  | interrupted
  | summary (packets : Nat) (rate : Float) (bytes devices errors : Nat)
  | captureWritten (packets : Nat) (path : String)
  | liveDropped (frames : Nat)
  | liveNotClosed (path : String) (cause : IoError)
  | exported (format : ExportFormat) (path : String)
  | exportFailed (format : ExportFormat) (path : String) (cause : ExportError)

namespace LogEvent

def level : LogEvent → LogLevel
  | .capturing _ | .interrupted | .summary .. | .captureWritten .. | .exported .. => .info
  | .rejectedLine .. | .fault .. | .packet _ | .endOfInput => .debug
  | .captureFailed _ | .exportFailed .. => .error
  | .liveDropped _ | .liveNotClosed .. => .warn

private def count (n : Nat) : String := String.ofList (Text.decimal n)

def text : LogEvent → String
  | .capturing tag => "Capturing frames tagged " ++ tag
  | .rejectedLine cause line => "Rejected line (" ++ cause.message ++ "): " ++ line
  | .fault cause whole =>
    (if whole then "Malformed LE meta event: " else "Dropped advertising report: ") ++
      cause.message
  | .packet record => record.describe
  | .captureFailed cause =>
    "Capture file write failed, no more packets will be saved: " ++ cause.message
  | .endOfInput => "End of input"
  | .interrupted => "Interrupted, finishing capture"
  | .summary packets rate bytes devices errors =>
    "Packets: " ++ count packets ++ " (" ++ Decimal.fixed 1 rate ++ "/s) | Bytes: " ++
      count bytes ++ " | Devices: " ++ count devices ++ " | Errors: " ++ count errors
  | .captureWritten packets path => "Wrote " ++ count packets ++ " packets to " ++ path
  | .liveDropped frames => "Live stream dropped " ++ count frames ++ " frames"
  | .liveNotClosed path cause =>
    "Closing live stream " ++ path ++ " failed: " ++ cause.message
  | .exported format path => format.name ++ " export written to " ++ path
  | .exportFailed format path cause =>
    format.name ++ " export to " ++ path ++ " failed: " ++ cause.message

end LogEvent

/-- The totals of a session so far, with a rate that the caller chooses. -/
def Session.summary (s : Session) (rate : Float) : LogEvent :=
  .summary s.packets rate s.bytes s.devices.size s.errors

def Options.shows (o : Options) : LogLevel → Bool
  | .error | .warn => true
  | .info => !o.quiet
  | .debug => o.verbose

/-- The fault of a frame as it is reported: a whole event that could not be
read, or a report of it that was dropped. -/
def Frame.faultEvent? (f : Frame) : Option LogEvent :=
  if f.type = .leMetaEvent then
    match f.leMetaEvent with
    | .ok event => event.fault.map (.fault · false)
    | .error cause => some (.fault cause true)
  else none

end BleCapture
