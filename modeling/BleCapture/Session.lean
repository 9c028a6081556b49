import BleCapture.Device.Filter
import BleCapture.Device.Table
import BleCapture.Hci.Report
import BleCapture.Queue.Lossy
import BleCapture.Tally

/-!
# Capture sessions

Everything accumulated during a capture: counters, histograms, the device
table and the log of recent packets. A frame that the filter rejects leaves no
trace but the faults found in it.
-/

namespace BleCapture

/-- Packets kept for reports. -/
def logCapacity : Nat := 10000

structure PacketRecord where
  time : Timestamp
  frame : Frame
  /-- The first report in it that passed the filter. -/
  report : Option Report
  deriving DecidableEq, Repr

namespace PacketRecord

def raw (p : PacketRecord) : List UInt8 := p.frame.toH4

private def named (kind : String) (name? : Option String) (code : UInt8) : String :=
  kind ++ " " ++ name?.getD (Text.hexCode 2 code.toNat)

/-- Address, name, signal strength and number of services of a report. -/
private def reportText (r : Report) : String :=
  " [" ++ r.address.toString ++
    (match r.fields.name? with
      | some name => " \"" ++ name ++ "\""
      | none => "") ++
    " " ++ String.ofList (Text.signed r.rssi.toInt) ++ "dBm" ++
    (if r.fields.services.isEmpty then ""
      else " svc:" ++ String.ofList (Text.decimal r.fields.services.length)) ++ "]"

/-- One line about the packet. A missing code reads as zero. -/
def describe (p : PacketRecord) : String :=
  match p.frame.type with
  | .leMetaEvent =>
    let code := p.frame.subevent.getD 0
    named "EVT" (AssignedNumbers.leSubeventName? code) code ++
      (match p.report with
        | some r => reportText r
        | none => "")
  | .generalEvent =>
    let code := p.frame.eventCode.getD 0
    named "EVT" (AssignedNumbers.eventName? code) code
  | .command =>
    let opcode := (p.frame.opcode.getD 0).toNat
    let group := opcode / 1024
    "CMD " ++
      (AssignedNumbers.opcodeGroupName? (UInt8.ofNat group)).getD
        ("OGF=" ++ Text.hexCode 2 group) ++
      " OCF=" ++ Text.hexCode 3 (opcode % 1024)
  | .aclData => "ACL " ++ String.ofList (Text.decimal p.raw.length) ++ " bytes"

end PacketRecord

/-- Reports are matched with their address, their name if any, and their
signal strength. -/
def PacketFilter.admitsReport (f : PacketFilter) (r : Report) : Bool :=
  f.admits (some r.address) r.fields.name? (some r.rssi)

/-- What a frame holds for the device table. -/
structure Reading where
  reports : List Report
  fault : Option Report.Fault
  deriving DecidableEq, Repr

/-- Only LE meta events are read; other frames hold no reports and no faults. -/
def Frame.reading (f : Frame) : Reading :=
  if f.type = .leMetaEvent then
    match f.leMetaEvent with
    | .ok event => ⟨event.reports, event.fault⟩
    | .error fault => ⟨[], some fault⟩
  else ⟨[], none⟩

def Report.sighting (r : Report) (time : Timestamp) : Sighting :=
  { address := r.address
    addressType := r.addressType
    type := r.type
    rssi := r.rssi
    fields := r.fields
    time }

structure Session where
  start : Timestamp
  finished : Option Timestamp := none
  packets : Nat := 0
  bytes : Nat := 0
  errors : Nat := 0
  types : Tally PacketClass := []
  events : Tally UInt8 := []
  devices : DeviceTable := {}
  log : LossyQueue PacketRecord logCapacity := {}
  filter : PacketFilter := {}

namespace Session

def recordError (s : Session) : Session := { s with errors := s.errors + 1 }

def countFault (s : Session) (r : Reading) : Session :=
  if r.fault.isSome then s.recordError else s

/-- A frame without reports is judged by the filter alone; one with reports is
accepted when at least one of them passes. -/
def accepts (s : Session) (r : Reading) : Bool :=
  if r.reports.isEmpty then s.filter.admits none none none
  else r.reports.any s.filter.admitsReport

def recordOf (s : Session) (f : Frame) (now : Timestamp) : PacketRecord :=
  ⟨now, f, f.reading.reports.find? s.filter.admitsReport⟩

/-- Counts an accepted frame, observes its matching reports and logs it. -/
def addFrame (s : Session) (f : Frame) (now : Timestamp) : Session :=
  { s with
    packets := s.packets + 1
    bytes := s.bytes + f.toH4.length
    types := s.types.bump PacketClass.rank f.type.packetClass
    events :=
      match f.eventCode with
      | some code => s.events.bump UInt8.toNat code
      | none => s.events
    devices :=
      (f.reading.reports.filter s.filter.admitsReport).foldl
        (fun t r => t.observe (r.sighting now)) s.devices
    log := s.log.enqueue (s.recordOf f now) }

/-- Accounts for one frame, and gives its record if the filter accepts it. -/
def recordFrame (s : Session) (f : Frame) (now : Timestamp) : Session × Option PacketRecord :=
  let counted := s.countFault f.reading
  if counted.accepts f.reading then (counted.addFrame f now, some (counted.recordOf f now))
  else (counted, none)

/-- Stamps the end of the capture; the first stamp stays. -/
def finish (s : Session) (now : Timestamp) : Session :=
  { s with finished := s.finished.or (some now) }

/-- Length of the capture, up to `now` while it runs. -/
def duration (s : Session) (now : Timestamp) : Duration :=
  (s.finished.getD now).since s.start

/-- Accepted packets per second; zero for a capture of no length. -/
def packetRate (s : Session) (now : Timestamp) : Float :=
  let seconds := (s.duration now).toFloat
  if seconds > 0 then s.packets.toUInt64.toFloat / seconds else 0

end Session

end BleCapture
