import BleCapture.Sink
import BleCapture.Time.Timestamp

/-!
# PCAP streams

A file header, then a header and the bytes of each packet, all numbers low
byte first. The link type is Bluetooth HCI H4. Reading is strict: it accepts
exactly a header of this kind and whole records.
-/

namespace BleCapture.Pcap

def le16 (n : Nat) : List UInt8 := [UInt8.ofNat n, UInt8.ofNat (n / 256)]

def le32 (n : Nat) : List UInt8 := le16 n ++ le16 (n / 65536)

def magic : Nat := 0xA1B2C3D4

def snapLength : Nat := 65535

def linkType : Nat := 187

/-- Magic, version 2.4, no time zone correction, snap length and link type. -/
def globalHeader : List UInt8 :=
  le32 magic ++ le16 2 ++ le16 4 ++ le32 0 ++ le32 0 ++ le32 snapLength ++ le32 linkType

/-- Seconds modulo 2³², whole microseconds, and the packet length twice. Times
before the epoch are written as the epoch. -/
def recordHeader (t : Timestamp) (length : Nat) : List UInt8 :=
  le32 t.sinceEpoch.seconds ++ le32 (t.sinceEpoch.subsecond / 1000) ++ le32 length ++ le32 length

def record (t : Timestamp) (packet : List UInt8) : List UInt8 :=
  recordHeader t packet.length ++ packet

def stream (packets : List (Timestamp × List UInt8)) : List UInt8 :=
  globalHeader ++ packets.flatMap fun p => record p.1 p.2

structure Entry where
  seconds : Nat
  micros : Nat
  savedLength : Nat
  fullLength : Nat
  packet : List UInt8
  deriving DecidableEq, Repr

def readLe32? : List UInt8 → Option (Nat × List UInt8)
  | b0 :: b1 :: b2 :: b3 :: rest =>
    some (b0.toNat + 256 * b1.toNat + 65536 * b2.toNat + 16777216 * b3.toNat, rest)
  | _ => none

def readRecord? (bs : List UInt8) : Option (Entry × List UInt8) := do
  let (seconds, r1) ← readLe32? bs
  let (micros, r2) ← readLe32? r1
  let (saved, r3) ← readLe32? r2
  let (full, body) ← readLe32? r3
  if body.length < saved then none
  else some (⟨seconds, micros, saved, full, body.take saved⟩, body.drop saved)

/-- At most `fuel` records, up to the end of the bytes. -/
def readRecords? : Nat → List UInt8 → Option (List Entry)
  | _, [] => some []
  | 0, _ :: _ => none
  | fuel + 1, bs => do
    let (entry, rest) ← readRecord? bs
    let entries ← readRecords? fuel rest
    some (entry :: entries)

/-- Reads a stream back. A record takes at least sixteen bytes, so the length
of the input bounds their number. -/
def read? (bs : List UInt8) : Option (List Entry) :=
  if globalHeader.isPrefixOf bs then
    readRecords? bs.length (bs.drop globalHeader.length)
  else none

end BleCapture.Pcap
