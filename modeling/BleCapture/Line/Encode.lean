import BleCapture.Hci.Report
import BleCapture.Sink
import BleCapture.Text.Hex

/-!
# Writing transport lines

An advertisement leaves the capturing side as an event with one report. Data
past the capacity of such an event is cut off.
-/

namespace BleCapture

def Advertisement.report (a : Advertisement) : Report :=
  ⟨a.type, a.addressType, a.address, a.rssi, a.payload.take Report.singleCapacity⟩

namespace Line

/-- The three fields of a frame, in their usual order. -/
def encodeFields (type : PacketType) (payload : List UInt8) : List Char :=
  "pkt_type=[0x".toList ++ Text.lowerHex 2 type.code.toNat ++
    "],len=[0x".toList ++ Text.lowerHex 2 payload.length ++
    "],data=[".toList ++ Text.Hex.encode payload ++ [']']

def encodeChars (tag : List Char) (a : Advertisement) : List Char :=
  tag ++ ':' :: encodeFields .leMetaEvent (Report.encodeAll [a.report])

/-- One line, without its end. -/
def encode (tag : String) (a : Advertisement) : String :=
  String.ofList (encodeChars tag.toList a)

/-- Writes transport lines to a byte sink, usually a serial console. -/
structure Writer where
  tag : String
  out : Sink := {}

def Writer.emit (w : Writer) (a : Advertisement) : Writer × Option IoError :=
  let (out, failure) := w.out.write (Text.Utf8.encode (encodeChars w.tag.toList a ++ ['\n']))
  ({ w with out }, failure)

end Line

end BleCapture
