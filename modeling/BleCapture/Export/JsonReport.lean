import BleCapture.Decimal.Fixed
import BleCapture.Export.Document
import BleCapture.Export.Json
import BleCapture.Session
import BleCapture.Text.Hex
import BleCapture.Time.Calendar

/-!
# JSON report

Capture information, statistics, the device table and the recent packets.
-/

namespace BleCapture.JsonReport

def hexCode (width n : Nat) : Json := .str (Text.hexCode width n)

def signed (n : Int8) : Json := .int n.toInt

def byte (n : UInt8) : Json := .nat n.toNat

def hexBytes (bs : List UInt8) : Json := .str (String.ofList (Text.Hex.encode bs))

def roundedMean (x : Float) : Float := Decimal.nearestWhole (x * 10) / 10

def captureInfo (s : Session) (now : Timestamp) : Json :=
  .obj
    [("start_time", .str s.start.rfc3339),
     ("end_time", .str (s.finished.getD now).rfc3339),
     ("duration_seconds", .real (s.duration now).toFloat),
     ("total_packets", .nat s.packets),
     ("bytes_captured", .nat s.bytes),
     ("errors", .nat s.errors)]

def statistics (s : Session) (now : Timestamp) : Json :=
  .obj
    [("packet_types", .obj (s.types.map fun e => (e.1.label, .nat e.2))),
     ("events_by_type", .obj (s.events.map fun e => (Text.hexCode 2 e.1.toNat, .nat e.2))),
     ("packets_per_second", .real (s.packetRate now))]

def device (d : Device) : Json :=
  .obj
    [("mac", .str d.address.toString),
     ("name", .ofOption .str d.name),
     ("manufacturer", .str (d.vendor?.getD "Unknown")),
     ("addr_type", .str d.addressType.label),
     ("rssi_min", signed d.signal.least),
     ("rssi_max", signed d.signal.greatest),
     ("rssi_avg", .real (roundedMean d.signal.mean)),
     ("tx_power", .ofOption signed d.txPower),
     ("appearance", .ofOption .str d.appearanceLabel?),
     ("appearance_code", .ofOption (fun c => hexCode 4 c.toNat) d.appearance),
     ("services", .strings d.serviceLabels),
     ("service_uuids", .strings (d.services.map fun u => Text.hexCode 4 u.toNat)),
     ("company_id", .ofOption (fun c => hexCode 4 c.toNat) d.companyId),
     ("company_name", .ofOption .str d.companyName?),
     ("flags", .ofOption (fun f => hexCode 2 f.toNat) d.flags),
     ("first_seen", .str d.firstSeen.rfc3339),
     ("last_seen", .str d.lastSeen.rfc3339),
     ("packet_count", .nat d.packetCount),
     ("adv_types", .strings d.advTypeLabels),
     ("mfg_data_hex",
       if d.manufacturerData.isEmpty then .null else hexBytes d.manufacturerData)]

def packet (p : PacketRecord) : Json :=
  let fields := p.report.map Report.fields
  .obj
    [("timestamp", .real p.time.sinceEpoch.toFloat),
     ("timestamp_iso", .str p.time.rfc3339),
     ("packet_type", .str p.frame.type.label),
     ("raw_hex", hexBytes p.raw),
     ("mac", .ofOption (fun r => .str r.address.toString) p.report),
     ("rssi", .ofOption (fun r => signed r.rssi) p.report),
     ("name", .ofOption .str (fields.bind AdFields.name?)),
     ("event_code", .ofOption byte p.frame.eventCode),
     ("subevent", .ofOption byte p.frame.subevent),
     ("adv_type", .ofOption (fun r => .str r.type.label) p.report),
     ("services",
       .strings ((fields.map AdFields.services).getD [] |>.map AssignedNumbers.serviceLabel)),
     ("company_id", .ofOption (fun c => hexCode 4 c.toNat) (fields.bind AdFields.companyId)),
     ("tx_power", .ofOption signed (fields.bind AdFields.txPower)),
     ("flags", .ofOption (fun f => hexCode 2 f.toNat) (fields.bind AdFields.flags))]

def report (s : Session) (now : Timestamp) : Json :=
  .obj
    [("capture_info", captureInfo s now),
     ("statistics", statistics s now),
     ("devices", .arr (s.devices.sorted.map device)),
     ("packets", .arr (s.log.toList.map packet))]

/-- The report and a last newline, which is no part of the JSON layer. -/
def document (s : Session) (now : Timestamp) : Document :=
  [⟨Text.Utf8.encode (report s now).text, .json⟩, ⟨Text.Utf8.encode ['\n'], .output⟩]

end BleCapture.JsonReport
