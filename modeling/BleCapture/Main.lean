import BleCapture.Options.Help
import BleCapture.Run.Capture
import Std.Time.DateTime.Timestamp

/-!
# Capture program

The outer layer: arguments, clock, files and messages. Lines are handled as
they arrive, and the capture file grows with every packet.
-/

namespace BleCapture.Program

def now : IO Timestamp := do
  let t ← Std.Time.Timestamp.now
  return ⟨t.toNanosecondsSinceUnixEpoch.val⟩

def errorOf : IO.Error → IoError
  | .noFileOrDirectory .. => FileSystem.notFound
  | e => ⟨.other, toString e⟩

/-- The input file, or standard input when none is named. -/
def openInput (o : Options) : IO IO.FS.Stream :=
  match o.input with
  | some path => return IO.FS.Stream.ofHandle (← IO.FS.Handle.mk path .read)
  | none => IO.getStdin

/-- Files are read in blocks. Standard input is read byte by byte: a larger
read would wait until that much has arrived. -/
def readSize (o : Options) : USize :=
  if o.input.isSome then 65536 else 1

def printLog (o : Options) (s : RunState) : IO RunState := do
  for e in s.log.reverse do
    if o.shows e.level then IO.eprintln ("[" ++ e.level.name ++ "] " ++ e.text)
  return { s with log := [] }

/-- Moves what the capture has gained into its file. -/
def flushCapture (file : Option IO.FS.Handle) (s : RunState) : IO RunState := do
  match file, s.capture with
  | some handle, some c =>
    try
      handle.write ⟨c.writer.sink.bytes.toArray⟩
      handle.flush
      return { s with capture := some { c with writer := { c.writer with sink := {} } } }
    catch e => return { s with capture := none }.note (.captureFailed (errorOf e))
  | _, _ => return s

def instant : ExceptT RunError IO Instant := do
  match Instant.ofNanos? (← IO.monoNanosNow) with
  | some now => return now
  | none => throw .clockOverflow

def handleLines (o : Options) (file : Option IO.FS.Handle) (s : RunState)
    (lines : List (List Char)) : IO RunState :=
  lines.foldlM
    (fun s line => do
      printLog o (← flushCapture file (s.handleLine o.tag (String.ofList line) (← now))))
    s

/-- Follows the input to its end. A read error counts as the end. -/
partial def follow (o : Options) (input : IO.FS.Stream) (file : Option IO.FS.Handle)
    (ticker : Ticker) (unfinished : List UInt8) (s : RunState) : ExceptT RunError IO RunState := do
  if ticker.nextDue.isNone then throw .clockOverflow
  match ← (input.read (readSize o)).toBaseIO with
  | .error _ => return s
  | .ok block =>
    if block.isEmpty then handleLines o file s (LineReader.lastLine unfinished .endOfInput)
    else
      let (lines, left) := LineReader.feed unfinished block.toList
      let s ← handleLines o file s lines
      let (ticker, s) := s.reportStatus ticker (← instant)
      follow o input file ticker left s

def openCapture (o : Options) (s : RunState) :
    ExceptT RunError IO (Option IO.FS.Handle × RunState) := do
  match o.output with
  | none => return (none, s)
  | some path =>
    match ← (IO.FS.Handle.mk path .write).toBaseIO, Pcap.Writer.create {} with
    | .ok handle, .ok writer => return (some handle, { s with capture := some ⟨path, writer⟩ })
    | .error e, _ => throw (.create path (errorOf e))
    | _, .error e => throw (.create path e)

/-- There is no way to make a named pipe from here. -/
def refusePipe (o : Options) : ExceptT RunError IO Unit :=
  match o.fifo with
  | none => return
  | some path => throw (.create path ⟨.other, "named pipes are not supported"⟩)

def writeReport (s : Session) (format : ExportFormat) (path : String) :
    IO (Option ExportError) := do
  let document := format.document s (← now)
  match ← (IO.FS.writeBinFile path ⟨document.bytes.toArray⟩).toBaseIO with
  | .ok _ => return none
  | .error e => return some ⟨.output, errorOf e⟩

def writeReports (o : Options) (s : RunState) : IO (RunState × Option ExportError) :=
  o.exports.foldlM
    (fun (s, failure) (format, path) => do
      match ← writeReport s.session format path with
      | none => return (s.note (.exported format path), failure)
      | some e => return (s.note (.exportFailed format path e), failure.or (some e)))
    (s, none)

def run (o : Options) : ExceptT RunError IO Unit := do
  let s : RunState := { files := {}, session := { start := ← now, filter := o.filter } }
  let (file, s) ← openCapture o s
  refusePipe o
  match ← (openInput o).toBaseIO with
  | .error e => throw (.source (o.input.getD "") (errorOf e))
  | .ok input =>
    let ticker := Ticker.startingAt o.statusInterval (← instant)
    let s ← printLog o (s.note (.capturing o.tag))
    let s ← follow o input file ticker [] s
    let s ← printLog o (← flushCapture file ((s.note .endOfInput).summarize (← now)))
    let (s, failure) ← writeReports o s
    let _ ← printLog o s
    match failure with
    | some e => throw (.report e)
    | none => return

end BleCapture.Program

open BleCapture in
def main (args : List String) : IO UInt32 := do
  match CommandLine.parse args with
  | .error .helpRequested => IO.println CommandLine.usage; return 0
  | .error .versionRequested => IO.println CommandLine.versionText; return 0
  | .error e =>
    IO.eprintln ("error: " ++ e.message)
    return 2
  | .ok o =>
    match ← Program.run o with
    | .ok _ => return 0
    | .error e =>
      IO.eprintln ("error: " ++ e.message)
      return 1
