import BleCapture.Device.Record

/-!
# Device table

One record for every address seen. Reports list the devices by activity: most
packets first, equal counts in address order.
-/

namespace BleCapture

/-- The records, each address once, in order of first appearance. -/
structure DeviceTable where
  devices : List Device := []
  distinct : (devices.map Device.address).Nodup := by exact List.nodup_nil

namespace DeviceTable

/-- Folds a sighting into the record of its address, or adds a record. -/
def observeIn (s : Sighting) : List Device → List Device
  | [] => [Device.ofSighting s]
  | d :: rest => if d.address = s.address then d.observe s :: rest else d :: observeIn s rest

theorem addresses_observeIn (s : Sighting) (ds : List Device) :
    (observeIn s ds).map Device.address =
      if s.address ∈ ds.map Device.address then ds.map Device.address
      else ds.map Device.address ++ [s.address] := by
  induction ds with
  | nil => simp [observeIn]
  | cons d rest ih =>
    by_cases h : d.address = s.address
    · simp [observeIn, h]
    · have h' : ¬ s.address = d.address := fun e => h e.symm
      simp only [observeIn, h, if_false, List.map_cons, ih, List.mem_cons, h', false_or]
      split <;> simp

theorem nodup_observeIn (s : Sighting) {ds : List Device} (h : (ds.map Device.address).Nodup) :
    ((observeIn s ds).map Device.address).Nodup := by
  rw [addresses_observeIn]
  split
  · exact h
  · rename_i hm
    rw [List.nodup_append]
    refine ⟨h, by simp, ?_⟩
    intro a ha b hb
    rw [List.mem_singleton.1 hb]
    exact fun e => hm (e ▸ ha)

def observe (t : DeviceTable) (s : Sighting) : DeviceTable :=
  ⟨observeIn s t.devices, nodup_observeIn s t.distinct⟩

def get? (t : DeviceTable) (a : Address) : Option Device :=
  t.devices.find? (·.address = a)

def size (t : DeviceTable) : Nat := t.devices.length

/-- Whether `a` comes no later than `b` in a report. -/
def ranksBefore (a b : Device) : Bool :=
  b.packetCount < a.packetCount ||
    (a.packetCount == b.packetCount && a.address.toNat ≤ b.address.toNat)

/-- Any enumeration of the records in report order. -/
def sortByActivity (devices : List Device) : List Device :=
  devices.mergeSort ranksBefore

def sorted (t : DeviceTable) : List Device := sortByActivity t.devices

end DeviceTable

end BleCapture
