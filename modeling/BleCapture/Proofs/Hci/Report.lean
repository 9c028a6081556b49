import BleCapture.Hci.Report

/-!
# Reports that are read back

A report whose data fits its length byte is read back from in front of
anything. Kinds are read back when they have the name that their code stands
for.
-/

namespace BleCapture

@[simp] theorem AddressType.ofCode_code (t : AddressType) : ofCode t.code = t := by
  cases t <;> rfl

namespace Report

/-- The report under the name that its code stands for. -/
def canonical (r : Report) : Report := { r with type := AdvType.ofCode r.type.code }

@[simp] theorem length_encode (r : Report) : r.encode.length = r.data.length + 10 := by
  simp only [encode, Address.wireBytes, List.length_cons, List.length_append, List.length_nil]
  omega

theorem read_encode_append (index : Nat) (r : Report) (h : r.data.length < 256)
    (tail : List UInt8) :
    read index (r.encode ++ tail) = .ok (r.canonical, tail) := by
  have hlen : (UInt8.ofNat r.data.length).toNat = r.data.length := UInt8.toNat_ofNat_of_lt' h
  have hdata : r.data ++ [r.rssi.toUInt8] ++ tail = r.data ++ (r.rssi.toUInt8 :: tail) :=
    List.append_assoc ..
  simp only [encode, Address.wireBytes, List.cons_append, List.nil_append, hdata, read, hlen,
    List.drop_left, List.take_left, Int8.toInt8_toUInt8, Address.ofWire, AddressType.ofCode_code]
  rfl

theorem readMany_succ_encode_append (count index : Nat) {r : Report} (h : r.data.length < 256)
    (tail : List UInt8) :
    readMany (count + 1) index (r.encode ++ tail) =
      (r.canonical :: (readMany count (index + 1) tail).1,
        (readMany count (index + 1) tail).2) := by
  rw [readMany, read_encode_append index r h]

theorem readMany_flatMap_encode (index : Nat) (reports : List Report)
    (h : ∀ r ∈ reports, r.data.length < 256) (tail : List UInt8) :
    readMany reports.length index (reports.flatMap encode ++ tail) =
      (reports.map canonical, none) := by
  induction reports generalizing index with
  | nil => rfl
  | cons r rest ih =>
    rw [List.flatMap_cons, List.append_assoc, List.length_cons,
      readMany_succ_encode_append _ _ (h r List.mem_cons_self),
      ih _ fun r hr => h r (List.mem_cons_of_mem _ hr), List.map_cons]

end Report

/-- An event with at most 255 reports, each of which fits, gives them back. -/
theorem Frame.leMetaEvent_encodeAll (declared : UInt16) (reports : List Report)
    (hcount : reports.length < 256) (h : ∀ r ∈ reports, r.data.length < 256) :
    Frame.leMetaEvent ⟨.leMetaEvent, declared, Report.encodeAll reports⟩ =
      .ok ⟨Report.subeventCode, reports.map Report.canonical, none⟩ := by
  have hlen : (UInt8.ofNat reports.length).toNat = reports.length :=
    UInt8.toNat_ofNat_of_lt' hcount
  have hread := Report.readMany_flatMap_encode 0 reports h []
  rw [List.append_nil] at hread
  simp only [Frame.leMetaEvent, Report.encodeAll, hlen, hread, ne_eq, not_true_eq_false, if_false]

end BleCapture
