import BleCapture.Advertisement.Basic
import BleCapture.AssignedNumbers
import BleCapture.Device.Signal
import BleCapture.Time.Timestamp

/-!
# Device records

Everything known about one address. A later advertisement adds to the record;
what it does not mention stays as it was. Company and manufacturer data always
come from the same advertisement.
-/

namespace BleCapture

structure Sighting where
  address : Address
  addressType : AddressType
  type : AdvType
  rssi : Int8
  fields : AdFields
  time : Timestamp

/-- Adds a kind to a set of kinds, kept in ascending order of rank. -/
def AdvType.insert (t : AdvType) : List AdvType → List AdvType
  | [] => [t]
  | u :: rest =>
    if t = u then u :: rest
    else if t.rank < u.rank then t :: u :: rest
    else u :: AdvType.insert t rest

structure Device where
  address : Address
  addressType : AddressType
  /-- The last name that was not empty. -/
  name : Option String := none
  signal : SignalStats Float
  txPower : Option Int8 := none
  appearance : Option UInt16 := none
  /-- Service identifiers in order of first appearance. -/
  services : List UInt16 := []
  companyId : Option UInt16 := none
  flags : Option UInt8 := none
  manufacturerData : List UInt8 := []
  advTypes : List AdvType := []
  firstSeen : Timestamp
  lastSeen : Timestamp
  deriving Repr

namespace Device

def packetCount (d : Device) : Nat := d.signal.count

def addServices (known : List UInt16) (services : List UInt16) : List UInt16 :=
  services.foldl (fun known s => if s ∈ known then known else known ++ [s]) known

/-- Takes over what a sighting says about its sender. -/
def merge (d : Device) (s : Sighting) : Device :=
  { d with
    addressType := s.addressType
    advTypes := s.type.insert d.advTypes
    name := s.fields.name?.or d.name
    txPower := s.fields.txPower.or d.txPower
    appearance := s.fields.appearance.or d.appearance
    flags := s.fields.flags.or d.flags
    companyId := s.fields.companyId.or d.companyId
    manufacturerData :=
      if s.fields.companyId.isSome then s.fields.manufacturerData else d.manufacturerData
    services := addServices d.services s.fields.services }

def ofSighting (s : Sighting) : Device :=
  merge
    { address := s.address
      addressType := s.addressType
      signal := SignalStats.first s.rssi
      firstSeen := s.time
      lastSeen := s.time } s

def observe (d : Device) (s : Sighting) : Device :=
  { d with signal := d.signal.add s.rssi, lastSeen := s.time }.merge s

def vendor? (d : Device) : Option String := AssignedNumbers.vendor? d.address

def companyName? (d : Device) : Option String := d.companyId.bind AssignedNumbers.companyName?

def serviceLabels (d : Device) : List String := d.services.map AssignedNumbers.serviceLabel

def appearanceLabel? (d : Device) : Option String :=
  d.appearance.map AssignedNumbers.appearanceLabel

def advTypeLabels (d : Device) : List String := d.advTypes.map AdvType.label

@[simp] theorem address_ofSighting (s : Sighting) : (ofSighting s).address = s.address := rfl

@[simp] theorem address_observe (d : Device) (s : Sighting) :
    (d.observe s).address = d.address := rfl

end Device

end BleCapture
