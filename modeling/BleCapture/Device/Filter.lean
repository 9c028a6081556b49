import BleCapture.Advertisement.Basic
import BleCapture.Text.LetterCase
import BleCapture.Text.Search

/-!
# Packet filter

Up to three conditions, all of which a packet must meet. An address or name
condition refuses packets that carry none; the signal condition lets packets
without a signal strength pass.
-/

namespace BleCapture

structure PacketFilter where
  address : Option Address := none
  /-- Text to be found in the name, in lowercase. -/
  name : Option (List Char) := none
  minRssi : Option Int8 := none
  deriving DecidableEq, Repr

namespace PacketFilter

/-- The name condition compares lowercase forms. -/
def make (address : Option Address) (name : Option String) (minRssi : Option Int8) :
    PacketFilter :=
  ⟨address, name.map fun n => Text.lowercase n.toList, minRssi⟩

def isEmpty (f : PacketFilter) : Bool :=
  f.address.isNone && f.name.isNone && f.minRssi.isNone

def admitsAddress (f : PacketFilter) (address : Option Address) : Bool :=
  match f.address with
  | some wanted => address == some wanted
  | none => true

def admitsName (f : PacketFilter) (name : Option String) : Bool :=
  match f.name, name with
  | some needle, some n => Text.occursIn needle (Text.lowercase n.toList)
  | some _, none => false
  | none, _ => true

def admitsRssi (f : PacketFilter) (rssi : Option Int8) : Bool :=
  match f.minRssi, rssi with
  | some least, some r => least ≤ r
  | _, _ => true

def admits (f : PacketFilter) (address : Option Address) (name : Option String)
    (rssi : Option Int8) : Bool :=
  f.admitsAddress address && f.admitsName name && f.admitsRssi rssi

end PacketFilter

end BleCapture
