import BleCapture.Address
import BleCapture.Advertisement.Fields

/-!
# Advertisements

One advertisement as the radio delivers it. The payload of a single packet
holds at most 255 bytes; what comes after them is cut off.
-/

namespace BleCapture

/-- The kind of an advertising packet. A code without a name is kept. -/
inductive AdvType where
  | connectable
  | directed
  | scannable
  | nonConnectable
  | scanResponse
  | unknown (code : UInt8)
  deriving DecidableEq, Repr, Inhabited

namespace AdvType

def ofCode (code : UInt8) : AdvType :=
  if code = 0 then .connectable
  else if code = 1 then .directed
  else if code = 2 then .scannable
  else if code = 3 then .nonConnectable
  else if code = 4 then .scanResponse
  else .unknown code

def code : AdvType → UInt8
  | .connectable => 0
  | .directed => 1
  | .scannable => 2
  | .nonConnectable => 3
  | .scanResponse => 4
  | .unknown code => code

/-- Kinds with a name come in the order of their codes, and before all others. -/
def rank : AdvType → Nat
  | .unknown code => 5 + code.toNat
  | t => t.code.toNat

def label : AdvType → String
  | .connectable => "ADV_IND"
  | .directed => "ADV_DIRECT_IND"
  | .scannable => "ADV_SCAN_IND"
  | .nonConnectable => "ADV_NONCONN_IND"
  | .scanResponse => "SCAN_RSP"
  | .unknown code => Text.hexCode 2 code.toNat

@[simp] theorem code_ofCode (c : UInt8) : (ofCode c).code = c := by
  unfold ofCode
  repeat' split
  all_goals simp_all [code]

theorem rank_injective {t u : AdvType} (h : t.rank = u.rank) : t = u := by
  cases t <;> cases u <;> simp_all [rank, code, UInt8.toNat_inj] <;> omega

end AdvType

inductive AddressType where
  | publicAddress
  | random
  deriving DecidableEq, Repr, Inhabited

namespace AddressType

/-- Every code but zero is a random address. -/
def ofCode (code : UInt8) : AddressType :=
  if code = 0 then .publicAddress else .random

def code : AddressType → UInt8
  | .publicAddress => 0
  | .random => 1

def label : AddressType → String
  | .publicAddress => "public"
  | .random => "random"

end AddressType

def payloadCapacity : Nat := 255

structure Advertisement where
  address : Address
  /-- Signal strength in dBm. -/
  rssi : Int8
  /-- Channel 37, 38 or 39; zero when the controller did not say. -/
  channel : UInt8
  /-- Milliseconds on the clock of the capturing side. -/
  timestamp : UInt32
  type : AdvType
  addressType : AddressType
  payload : List UInt8
  payload_le : payload.length ≤ payloadCapacity

namespace Advertisement

/-- Cuts the payload to what a packet can hold. -/
def ofPayload (address : Address) (rssi : Int8) (channel : UInt8) (timestamp : UInt32)
    (type : AdvType) (addressType : AddressType) (payload : List UInt8) : Advertisement where
  address
  rssi
  channel
  timestamp
  type
  addressType
  payload := payload.take payloadCapacity
  payload_le := by simp only [List.length_take]; omega

def fields (a : Advertisement) : AdFields :=
  AdFields.ofPayload a.payload

end Advertisement

end BleCapture
