import BleCapture.Decimal.Fixed
import BleCapture.Export.Csv
import BleCapture.Export.Document
import BleCapture.Session
import BleCapture.Time.Calendar

/-!
# CSV report

The device table, one row a device. Cells with several values separate them by
a semicolon and a blank; what is not known is left empty.
-/

namespace BleCapture.CsvReport

def header : List String :=
  ["MAC Address", "Name", "Manufacturer", "Address Type", "RSSI (Avg)", "RSSI (Min)",
   "RSSI (Max)", "TX Power", "Appearance", "Services", "Company ID", "Company Name",
   "First Seen", "Last Seen", "Packet Count", "ADV Types"]

def number (n : Int) : String := String.ofList (Text.signed n)

def joined (labels : List String) : String := "; ".intercalate labels

def row (d : Device) : List String :=
  [d.address.toString,
   d.name.getD "",
   d.vendor?.getD "Unknown",
   d.addressType.label,
   Decimal.fixed 1 d.signal.mean,
   number d.signal.least.toInt,
   number d.signal.greatest.toInt,
   (d.txPower.map fun p => number p.toInt).getD "",
   d.appearanceLabel?.getD "",
   joined d.serviceLabels,
   (d.companyId.map fun c => Text.hexCode 4 c.toNat).getD "",
   d.companyName?.getD "",
   d.firstSeen.dateTime,
   d.lastSeen.dateTime,
   number d.packetCount,
   joined d.advTypeLabels]

def rows (s : Session) : List (List String) :=
  header :: s.devices.sorted.map row

/-- Blocks that fill up are written by the CSV layer; the last one goes out
when everything has been encoded. -/
def document (s : Session) : Document :=
  let cells := (rows s).map fun r => r.map String.toList
  let blocks := Csv.blocks Document.bufferCapacity [] 0 (Csv.tableSegments cells)
  blocks.dropLast.map (⟨·, .csv⟩) ++ (blocks.getLast?.toList.map (⟨·, .output⟩))

end BleCapture.CsvReport
