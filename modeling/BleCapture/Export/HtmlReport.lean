import BleCapture.Decimal.Fixed
import BleCapture.Export.Document
import BleCapture.Session
import BleCapture.Text.Utf8
import BleCapture.Time.Calendar

/-!
# HTML report

One static page: summary cards, the device table and the distribution of
packet kinds. All text that comes from outside is escaped.
-/

namespace BleCapture.HtmlReport

/-- Characters that must not stand for themselves. -/
def isMarked (c : Char) : Bool :=
  c = '&' || c = '<' || c = '>' || c = '"' || c = '\''

/-- The entity of a marked character. -/
def escapeChar (c : Char) : List Char :=
  if c = '&' then "&amp;".toList
  else if c = '<' then "&lt;".toList
  else if c = '>' then "&gt;".toList
  else if c = '"' then "&quot;".toList
  else if c = '\'' then "&#39;".toList
  else [c]

/-- A text without marked characters is taken over as it is. -/
def escape (s : List Char) : List Char :=
  if s.any isMarked then s.flatMap escapeChar else s

def escaped (s : String) : List Char := escape s.toList

def style : List String :=
  ["        * \x7b box-sizing: border-box; margin: 0; padding: 0; \x7d",
   "        body \x7b font-family: -apple-system, BlinkMacSystemFont, 'Segoe UI', Roboto, sans-serif;",
   "               background: #1a1a2e; color: #eee; padding: 20px; \x7d",
   "        .container \x7b max-width: 1400px; margin: 0 auto; \x7d",
   "        h1 \x7b color: #00d4ff; margin-bottom: 10px; \x7d",
   "        h2 \x7b color: #00d4ff; margin: 20px 0 10px; border-bottom: 1px solid #333; padding-bottom: 5px; \x7d",
   "        .stats-grid \x7b display: grid; grid-template-columns: repeat(auto-fit, minmax(200px, 1fr)); gap: 15px; margin: 20px 0; \x7d",
   "        .stat-card \x7b background: #16213e; padding: 20px; border-radius: 10px; text-align: center; \x7d",
   "        .stat-value \x7b font-size: 2em; color: #00d4ff; font-weight: bold; \x7d",
   "        .stat-label \x7b color: #888; margin-top: 5px; \x7d",
   "        table \x7b width: 100%; border-collapse: collapse; margin: 15px 0; background: #16213e; border-radius: 10px; overflow: hidden; \x7d",
   "        th \x7b background: #0f3460; color: #00d4ff; padding: 12px; text-align: left; \x7d",
   "        td \x7b padding: 10px 12px; border-bottom: 1px solid #333; \x7d",
   "        tr:hover \x7b background: #1f4068; \x7d",
   "        .rssi-good \x7b color: #4ade80; \x7d",
   "        .rssi-medium \x7b color: #facc15; \x7d",
   "        .rssi-poor \x7b color: #f87171; \x7d",
   "        .badge \x7b display: inline-block; padding: 2px 8px; border-radius: 4px; font-size: 0.8em; margin: 2px; \x7d",
   "        .badge-service \x7b background: #3b82f6; \x7d",
   "        .manufacturer \x7b color: #a78bfa; \x7d",
   "        .timestamp \x7b color: #888; font-size: 0.9em; \x7d"]

def number (n : Nat) : List Char := Text.decimal n

/-- A page is a list of lines; every one of them ends with a newline. -/
abbrev Line := List Char

def card (value label : List Char) : Line :=
  "        <div class=\"stat-card\"><div class=\"stat-value\">".toList ++ escape value ++
    "</div><div class=\"stat-label\">".toList ++ escape label ++ "</div></div>".toList

def signalClass (mean : Float) : String :=
  if mean > -60 then "rssi-good" else if mean > -80 then "rssi-medium" else "rssi-poor"

/-- Services shown before the rest is only counted. -/
def badgeLimit : Nat := 3

def badges (labels : List String) : List Char :=
  if labels.isEmpty then ['-']
  else
    ((labels.take badgeLimit).flatMap fun label =>
      "<span class=\"badge badge-service\">".toList ++ escaped label ++ "</span>".toList) ++
    if badgeLimit < labels.length then
      "<span class=\"badge\">+".toList ++ number (labels.length - badgeLimit) ++ "</span>".toList
    else []

def deviceName (d : Device) : List Char :=
  match d.name with
  | some name => escaped name
  | none => "<em style=\"color:#666\">Unknown</em>".toList

def powerText (d : Device) : List Char :=
  match d.txPower with
  | some p => Text.signed p.toInt ++ " dBm".toList
  | none => ['-']

def deviceRow (d : Device) : Line :=
  "        <tr><td><code>".toList ++ d.address.text ++ "</code></td><td>".toList ++
    deviceName d ++ "</td><td class=\"manufacturer\">".toList ++
    escaped (d.vendor?.getD "Unknown") ++ "</td><td class=\"".toList ++
    (signalClass d.signal.mean).toList ++ "\">".toList ++
    (Decimal.fixed 0 d.signal.mean).toList ++ " dBm</td><td>".toList ++ powerText d ++
    "</td><td>".toList ++ badges d.serviceLabels ++ "</td><td>".toList ++
    number d.packetCount ++ "</td><td class=\"timestamp\">".toList ++
    d.lastSeen.timeOfDay.toList ++ "</td></tr>".toList

def percentage (count total : Nat) : Float :=
  if total = 0 then 0 else count.toUInt64.toFloat / total.toUInt64.toFloat * 100

def typeRow (total : Nat) (entry : PacketClass × Nat) : Line :=
  "        <tr><td>".toList ++ escaped entry.1.label ++ "</td><td>".toList ++ number entry.2 ++
    "</td><td>".toList ++ (Decimal.fixed 1 (percentage entry.2 total)).toList ++
    "%</td></tr>".toList

/-- Most frequent first, equal counts in the order of the labels. -/
def typesByCount (types : Tally PacketClass) : List (PacketClass × Nat) :=
  types.mergeSort fun a b => b.2 < a.2 || (a.2 == b.2 && a.1.rank ≤ b.1.rank)

/-- Everything up to the line that says when the page was made. -/
def opening : List String :=
  ["<!DOCTYPE html>", "<html lang=\"en\">", "<head>", "    <meta charset=\"UTF-8\">",
   "    <title>BLE Sniffer Report</title>", "    <style>"] ++ style ++
  ["    </style>", "</head>", "<body>", "<div class=\"container\">",
   "    <h1>BLE Sniffer Report</h1>"]

def cards (s : Session) (now : Timestamp) : List Line :=
  [card (number s.packets) "Total Packets".toList,
   card (number s.devices.size) "Unique Devices".toList,
   card ((Decimal.fixed 1 (s.bytes.toUInt64.toFloat / 1024)).toList ++ " KB".toList)
     "Data Captured".toList,
   card ((Decimal.fixed 1 (s.packetRate now)).toList ++ "/s".toList) "Packet Rate".toList,
   card (number (s.duration now).seconds ++ ['s']) "Duration".toList]

def deviceTable (s : Session) : List Line :=
  ["    <h2>Discovered Devices (".toList ++ number s.devices.size ++ ")</h2>".toList,
   "    <table>".toList,
   ("        <tr><th>MAC Address</th><th>Name</th><th>Manufacturer</th><th>RSSI</th>" ++
     "<th>TX Power</th><th>Services</th><th>Packets</th><th>Last Seen</th></tr>").toList] ++
  s.devices.sorted.map deviceRow ++ ["    </table>".toList]

def typeTable (s : Session) : List Line :=
  ["    <h2>Packet Types Distribution</h2>".toList, "    <table>".toList,
   "        <tr><th>Type</th><th>Count</th><th>Percentage</th></tr>".toList] ++
  (typesByCount s.types).map (typeRow s.packets) ++ ["    </table>".toList]

/-- All lines of the page. `generated` is the time it says it was made at. -/
def page (s : Session) (now : Timestamp) (generated : String) : List Line :=
  opening.map String.toList ++
  ["    <p class=\"timestamp\">Generated: ".toList ++ generated.toList ++ "</p>".toList,
   "    <div class=\"stats-grid\">".toList] ++ cards s now ++ ["    </div>".toList] ++
  deviceTable s ++ typeTable s ++
  ["</div>".toList, "</body>".toList, "</html>".toList]

def document (s : Session) (now : Timestamp) : Document :=
  (page s now now.dateTime).map fun line => ⟨Text.Utf8.encode (line ++ ['\n']), .output⟩

end BleCapture.HtmlReport
