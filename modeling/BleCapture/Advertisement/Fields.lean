import BleCapture.Advertisement.Structure
import BleCapture.Text.Utf8

/-!
# Advertisement fields

What an advertisement says about its sender. A later entry overwrites an
earlier one of the same kind; service identifiers add up instead. Capacities
are fixed, and what goes beyond them is dropped.

Zero flags, a zero appearance, a zero company and a power of -128 dBm all mean
that the item is absent, also when they overwrite a value.
-/

namespace BleCapture

def nameCapacity : Nat := 31
def manufacturerCapacity : Nat := 64
def serviceCapacity : Nat := 8

/-- The power level that stands for an absent one. -/
def absentPower : Int8 := -128

structure AdFields where
  /-- Bytes of the name, not necessarily UTF-8; empty when absent. -/
  name : List UInt8 := []
  txPower : Option Int8 := none
  appearance : Option UInt16 := none
  flags : Option UInt8 := none
  companyId : Option UInt16 := none
  manufacturerData : List UInt8 := []
  services : List UInt16 := []
  deriving DecidableEq, Repr

namespace AdFields

def littleEndian (lo hi : UInt8) : UInt16 :=
  UInt16.ofNat (lo.toNat + 256 * hi.toNat)

/-- Complete pairs of bytes as numbers; a last single byte is ignored. -/
def pairs : List UInt8 → List UInt16
  | lo :: hi :: rest => littleEndian lo hi :: pairs rest
  | _ => []

def present [DecidableEq α] (absent value : α) : Option α :=
  if value = absent then none else some value

/-- The entries that say something, by what they say. -/
inductive Kind where
  | flags
  | services
  | name
  | txPower
  | appearance
  | manufacturer
  | other
  deriving DecidableEq, Repr

/-- Incomplete and complete lists, and short and complete names, count alike. -/
def Kind.ofType (type : UInt8) : Kind :=
  if type = 0x01 then .flags
  else if type = 0x02 ∨ type = 0x03 then .services
  else if type = 0x08 ∨ type = 0x09 then .name
  else if type = 0x0A then .txPower
  else if type = 0x19 then .appearance
  else if type = 0xFF then .manufacturer
  else .other

/-- Takes one entry into account. An entry too short for its kind says
nothing. -/
def merge (f : AdFields) (s : AdStructure) : AdFields :=
  match Kind.ofType s.type, s.data with
  | .flags, b :: _ => { f with flags := present 0 b }
  | .services, data => { f with services := (f.services ++ pairs data).take serviceCapacity }
  | .name, data => { f with name := data.take nameCapacity }
  | .txPower, b :: _ => { f with txPower := present absentPower b.toInt8 }
  | .appearance, lo :: hi :: _ => { f with appearance := present 0 (littleEndian lo hi) }
  | .manufacturer, lo :: hi :: rest =>
    { f with
      companyId := present 0 (littleEndian lo hi)
      manufacturerData := rest.take manufacturerCapacity }
  | _, _ => f

def ofPayload (payload : List UInt8) : AdFields :=
  (AdStructure.parse payload).foldl merge {}

/-- The name as text, with replacement characters for bytes that are none. -/
def nameText (f : AdFields) : String :=
  String.ofList (Text.Utf8.decode f.name)

def name? (f : AdFields) : Option String :=
  if f.name.isEmpty then none else some f.nameText

end AdFields

end BleCapture
