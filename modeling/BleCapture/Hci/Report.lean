import BleCapture.Advertisement.Basic
import BleCapture.Hci.Frame

/-!
# Advertising reports

An LE meta event with sub-event code 2 carries a count and that many reports:
type, address type, address in wire order, data length, data, signal strength.
A report that does not fit ends the reading and is remembered as a fault; the
reports before it count.
-/

namespace BleCapture

structure Report where
  type : AdvType
  addressType : AddressType
  address : Address
  rssi : Int8
  data : List UInt8
  deriving DecidableEq, Repr

namespace Report

def fields (r : Report) : AdFields :=
  AdFields.ofPayload r.data

def subeventCode : UInt8 := 0x02

def headerLength : Nat := 9

/-- The most data that an event with a single report can carry: its length
byte also covers the code, the count, the header and the signal strength. -/
def singleCapacity : Nat := 255 - 2 - headerLength - 1

/-- The part an event ended before. -/
inductive Part where
  | subeventCode
  | reportCount
  | reportHeader
  deriving DecidableEq, Repr

def Part.name : Part → String
  | .subeventCode => "sub-event code"
  | .reportCount => "report count"
  | .reportHeader => "report header"

inductive Fault where
  | notLeMeta (type : PacketType)
  | truncated (missing : Part)
  | overrun (index declared remaining : Nat)
  deriving DecidableEq, Repr

def Fault.message : Fault → String
  | .notLeMeta type => "expected an LE meta event, got " ++ type.name
  | .truncated missing => "event truncated before the " ++ missing.name
  | .overrun index declared remaining =>
    "report " ++ String.ofList (Text.decimal index) ++ " declares " ++
      String.ofList (Text.decimal declared) ++ " data bytes but only " ++
      String.ofList (Text.decimal remaining) ++ " remain"

/-- The report at the front of `bytes`, and the bytes after it. -/
def read (index : Nat) (bytes : List UInt8) : Except Fault (Report × List UInt8) :=
  match bytes with
  | type :: addressType :: w0 :: w1 :: w2 :: w3 :: w4 :: w5 :: length :: rest =>
    match rest.drop length.toNat with
    | rssi :: tail =>
      .ok (⟨AdvType.ofCode type, AddressType.ofCode addressType, Address.ofWire w0 w1 w2 w3 w4 w5,
        rssi.toInt8, rest.take length.toNat⟩, tail)
    | [] => .error (.overrun index length.toNat rest.length)
  | _ => .error (.truncated .reportHeader)

/-- Reads `count` reports, the first of which has number `index`. -/
def readMany : Nat → Nat → List UInt8 → List Report × Option Fault
  | 0, _, _ => ([], none)
  | count + 1, index, bytes =>
    match read index bytes with
    | .ok (report, rest) =>
      let (reports, fault) := readMany count (index + 1) rest
      (report :: reports, fault)
    | .error fault => ([], some fault)

/-- The length byte is the data length modulo 256; the data is whole. -/
def encode (r : Report) : List UInt8 :=
  r.type.code :: r.addressType.code :: r.address.wireBytes ++
    UInt8.ofNat r.data.length :: r.data ++ [r.rssi.toUInt8]

/-- Event payload with these reports; their count is taken modulo 256. -/
def encodeAll (reports : List Report) : List UInt8 :=
  subeventCode :: UInt8.ofNat reports.length :: reports.flatMap encode

end Report

/-- An LE meta event: its reports, none for other sub-events, and the fault
that ended them early. -/
structure LeMetaEvent where
  subevent : UInt8
  reports : List Report
  fault : Option Report.Fault
  deriving DecidableEq, Repr

/-- Interprets an LE meta event; frames of other types and events without
their fixed part have no interpretation. -/
def Frame.leMetaEvent (f : Frame) : Except Report.Fault LeMetaEvent :=
  if f.type ≠ .leMetaEvent then .error (.notLeMeta f.type)
  else
    match f.payload with
    | [] => .error (.truncated .subeventCode)
    | subevent :: body =>
      if subevent ≠ Report.subeventCode then .ok ⟨subevent, [], none⟩
      else
        match body with
        | [] => .error (.truncated .reportCount)
        | count :: rest =>
          let (reports, fault) := Report.readMany count.toNat 0 rest
          .ok ⟨subevent, reports, fault⟩

end BleCapture
