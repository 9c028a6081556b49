/-!
# Host controller frames

One packet between host and controller, without the indicator byte and, for LE
meta events, without the event code: both follow from the packet type.
-/

namespace BleCapture

inductive PacketType where
  | command
  | aclData
  | leMetaEvent
  | generalEvent
  deriving DecidableEq, Repr

/-- The kinds that capture statistics tell apart, in report order. -/
inductive PacketClass where
  | acl
  | command
  | event
  deriving DecidableEq, Repr

namespace PacketClass

def rank : PacketClass → Nat
  | .acl => 0
  | .command => 1
  | .event => 2

def label : PacketClass → String
  | .acl => "HCI_ACL"
  | .command => "HCI_CMD"
  | .event => "HCI_EVT"

end PacketClass

namespace PacketType

def ofCode? (code : UInt8) : Option PacketType :=
  if code = 1 then some .command
  else if code = 2 then some .aclData
  else if code = 4 then some .leMetaEvent
  else if code = 5 then some .generalEvent
  else none

def code : PacketType → UInt8
  | .command => 1
  | .aclData => 2
  | .leMetaEvent => 4
  | .generalEvent => 5

def packetClass : PacketType → PacketClass
  | .command => .command
  | .aclData => .acl
  | .leMetaEvent | .generalEvent => .event

def label (t : PacketType) : String := t.packetClass.label

def name : PacketType → String
  | .command => "command"
  | .aclData => "ACL data"
  | .leMetaEvent => "LE meta event"
  | .generalEvent => "event"

/-- The largest payload whose packet header can state its length: one byte for
commands and events, two for ACL data. A general event holds its own header. -/
def maxPayload : PacketType → Nat
  | .command => 2 + 255
  | .aclData => 2 + 65535
  | .leMetaEvent => 255
  | .generalEvent => 2 + 255

end PacketType

structure Frame where
  type : PacketType
  /-- Payload length as announced, modulo 65536. -/
  declaredLength : UInt16
  payload : List UInt8
  deriving DecidableEq, Repr

namespace Frame

def leMetaCode : UInt8 := 0x3E

def ofPayload (type : PacketType) (payload : List UInt8) : Frame :=
  ⟨type, UInt16.ofNat payload.length, payload⟩

def eventCode (f : Frame) : Option UInt8 :=
  match f.type with
  | .leMetaEvent => some leMetaCode
  | .generalEvent => f.payload.head?
  | _ => none

def subevent (f : Frame) : Option UInt8 :=
  match f.type with
  | .leMetaEvent => f.payload.head?
  | _ => none

/-- The first two payload bytes of a command, low byte first. -/
def opcode (f : Frame) : Option UInt16 :=
  match f.type, f.payload with
  | .command, lo :: hi :: _ => some (UInt16.ofNat (lo.toNat + 256 * hi.toNat))
  | _, _ => none

/-- The whole H4 packet: indicator, header and payload. Bytes past the largest
payload are left out, so that the header agrees with the body. A command or
ACL payload too short for its header is written as it is. -/
def toH4 (f : Frame) : List UInt8 :=
  let payload := f.payload.take f.type.maxPayload
  match f.type, payload with
  | .command, lo :: hi :: body => 0x01 :: lo :: hi :: UInt8.ofNat body.length :: body
  | .command, short => 0x01 :: short
  | .aclData, lo :: hi :: body =>
    0x02 :: lo :: hi :: UInt8.ofNat (body.length % 256) :: UInt8.ofNat (body.length / 256) :: body
  | .aclData, short => 0x02 :: short
  | .leMetaEvent, body => 0x04 :: leMetaCode :: UInt8.ofNat body.length :: body
  | .generalEvent, body => 0x04 :: body

end Frame

end BleCapture
