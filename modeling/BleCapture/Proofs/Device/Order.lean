import BleCapture.Proofs.Device.History

/-!
# The order of devices in reports

Devices are listed by activity: more packets first, and among equally active ones
the lower address first. No two records share an address, so the list holds every
record once, in an order without ties. There is one such list for every table, in
whatever order its records are enumerated.
-/

namespace BleCapture

namespace Address

theorem foldl_bytes_lt_iff {bs cs : List UInt8} (hlength : bs.length = cs.length) (m n : Nat) :
    bs.foldl (fun n b => n * 256 + b.toNat) m < cs.foldl (fun n b => n * 256 + b.toNat) n ↔
      m < n ∨ m = n ∧ bs < cs := by
  induction bs generalizing cs m n with
  | nil =>
    obtain rfl := List.length_eq_zero_iff.mp hlength.symm
    simp
  | cons b bs ih =>
    obtain ⟨c, cs, rfl⟩ := List.exists_cons_of_length_eq_add_one hlength.symm
    have hb := b.toNat_lt
    have hc := c.toNat_lt
    rw [List.foldl_cons, List.foldl_cons, ih (Nat.succ.inj hlength), List.cons_lt_cons_iff,
      UInt8.lt_iff_toNat_lt, ← UInt8.toNat_inj]
    by_cases hrest : bs < cs <;> simp only [hrest, and_true, and_false, or_false] <;> omega

/-- The order of addresses is that of their bytes, the first that differ deciding. -/
theorem toNat_lt_iff (a b : Address) : a.toNat < b.toNat ↔ a.bytes < b.bytes := by
  have hlength : a.bytes.length = b.bytes.length := Eq.refl 6
  exact (foldl_bytes_lt_iff hlength 0 0).trans (by simp)

theorem toNat_injective {a b : Address} (h : a.toNat = b.toNat) : a = b := by
  have hab : ¬ a.bytes < b.bytes := by rw [← toNat_lt_iff]; omega
  have hba : ¬ b.bytes < a.bytes := by rw [← toNat_lt_iff]; omega
  have hbytes : a.bytes = b.bytes := List.le_antisymm (List.not_lt.mp hba) (List.not_lt.mp hab)
  cases a
  cases b
  simpa only [bytes, List.cons.injEq, and_true, mk.injEq] using hbytes

end Address

/-- A line of a report: an address, and the number of packets seen from it. -/
abbrev Standing := Address × Nat

def Device.standing (d : Device) : Standing := (d.address, d.packetCount)

/-- More packets, or as many and a lower address. -/
def Outranks (a b : Standing) : Prop :=
  b.2 < a.2 ∨ a.2 = b.2 ∧ a.1.toNat < b.1.toNat

instance : DecidableRel Outranks := fun a b =>
  inferInstanceAs (Decidable (b.2 < a.2 ∨ a.2 = b.2 ∧ a.1.toNat < b.1.toNat))

theorem Outranks.asymm {a b : Standing} (hab : Outranks a b) : ¬ Outranks b a := by
  unfold Outranks at *
  omega

theorem Outranks.ne {a b : Standing} (h : Outranks a b) : a ≠ b := by
  rintro rfl
  exact h.asymm h

namespace DeviceTable

theorem ranksBefore_iff (a b : Device) :
    ranksBefore a b = true ↔
      b.packetCount < a.packetCount ∨
        a.packetCount = b.packetCount ∧ a.address.toNat ≤ b.address.toNat := by
  simp only [ranksBefore, Bool.or_eq_true, Bool.and_eq_true, decide_eq_true_eq, beq_iff_eq]

theorem ranksBefore_trans (a b c : Device) (hab : ranksBefore a b) (hbc : ranksBefore b c) :
    ranksBefore a c := by
  rw [ranksBefore_iff] at *
  omega

theorem ranksBefore_total (a b : Device) : ranksBefore a b || ranksBefore b a := by
  rw [Bool.or_eq_true, ranksBefore_iff, ranksBefore_iff]
  omega

theorem outranks_of_ranksBefore {a b : Device} (h : ranksBefore a b) (hne : a.address ≠ b.address) :
    Outranks a.standing b.standing := by
  obtain hlt | ⟨heq, hle⟩ := (ranksBefore_iff a b).mp h
  · exact .inl hlt
  · have haddress : a.address.toNat ≠ b.address.toNat := fun h => hne (Address.toNat_injective h)
    exact .inr ⟨heq, Nat.lt_of_le_of_ne hle haddress⟩

theorem pairwise_sortByActivity {ds : List Device} (h : (ds.map Device.address).Nodup) :
    (sortByActivity ds).Pairwise fun a b => Outranks a.standing b.standing := by
  have hranked : (sortByActivity ds).Pairwise fun a b => ranksBefore a b :=
    List.pairwise_mergeSort ranksBefore_trans ranksBefore_total ds
  have hperm : (sortByActivity ds).Perm ds := List.mergeSort_perm ds ranksBefore
  have hdistinct : (sortByActivity ds).Pairwise fun a b => a.address ≠ b.address :=
    List.pairwise_map.mp ((hperm.map Device.address).nodup_iff.mpr h)
  refine hranked.imp₂ ?_ hdistinct
  intro a b hab hne
  exact outranks_of_ranksBefore hab hne

theorem sorted_perm (t : DeviceTable) : t.sorted.Perm t.devices :=
  List.mergeSort_perm t.devices ranksBefore

/-- Every device of the list outranks all that come after it. -/
theorem pairwise_sorted (t : DeviceTable) : (t.sorted.map Device.standing).Pairwise Outranks :=
  List.pairwise_map.mpr (pairwise_sortByActivity t.distinct)

/-- The lines of a report are the addresses seen, each with its number of
sightings. -/
theorem mem_standings_ofSightings (ss : List Sighting) (line : Standing) :
    line ∈ (ofSightings ss).sorted.map Device.standing ↔
      line.1 ∈ ss.map Sighting.address ∧ line.2 = (sightingsOf line.1 ss).length := by
  obtain ⟨a, count⟩ := line
  have hcount : ∀ d, (ofSightings ss).get? a = some d →
      d.packetCount = (sightingsOf a ss).length := by
    intro d hd
    rw [get?_ofSightings] at hd
    exact (Device.summarizes_ofHistory? hd).packetCount
  have hseen : a ∈ ss.map Sighting.address ↔
      ∃ d ∈ (ofSightings ss).devices, d.address = a := by
    rw [← List.mem_eraseDups, ← addresses_ofSightings, List.mem_map]
  rw [hseen, List.mem_map]
  constructor
  · rintro ⟨d, hd, hline⟩
    obtain ⟨rfl, rfl⟩ : d.address = a ∧ d.packetCount = count := Prod.mk.inj hline
    have hd : d ∈ (ofSightings ss).devices := (sorted_perm _).mem_iff.mp hd
    exact ⟨⟨d, hd, rfl⟩, hcount d ((get?_eq_some_iff _ _ d).mpr ⟨hd, rfl⟩)⟩
  · rintro ⟨⟨d, hd, rfl⟩, hline⟩
    have hpackets := hcount d ((get?_eq_some_iff _ _ d).mpr ⟨hd, rfl⟩)
    exact ⟨d, (sorted_perm _).mem_iff.mpr hd, Prod.ext rfl (hpackets.trans hline.symm)⟩

-- ---------------------------------------------------------------------------
-- The one ranking of a table
-- ---------------------------------------------------------------------------

/-- A list of exactly the records that a table gives for their addresses, each ranked
before all that come after it. None can be in it twice. -/
structure IsRanking (t : DeviceTable) (ds : List Device) : Prop where
  mem_iff : ∀ d, d ∈ ds ↔ t.get? d.address = some d
  ranked : ds.Pairwise fun a b =>
    b.packetCount < a.packetCount ∨
      a.packetCount = b.packetCount ∧ a.address.bytes < b.address.bytes

theorem isRanking_iff (t : DeviceTable) (ds : List Device) :
    IsRanking t ds ↔
      ds.Perm t.devices ∧ ds.Pairwise fun a b => Outranks a.standing b.standing := by
  have hmem : ∀ d, t.get? d.address = some d ↔ d ∈ t.devices := fun d => by
    rw [get?_eq_some_iff, and_iff_left rfl]
  constructor
  · rintro ⟨hcomplete, hranked⟩
    have hranked : ds.Pairwise fun a b => Outranks a.standing b.standing :=
      hranked.imp fun h => h.imp_right fun h => ⟨h.1, (Address.toNat_lt_iff _ _).mpr h.2⟩
    have hnodup : ds.Nodup := hranked.imp fun h heq => h.ne (congrArg Device.standing heq)
    exact ⟨(List.perm_ext_iff_of_nodup hnodup t.nodup_devices).mpr fun d =>
      (hcomplete d).trans (hmem d), hranked⟩
  · rintro ⟨hperm, hranked⟩
    exact ⟨fun d => hperm.mem_iff.trans (hmem d).symm,
      hranked.imp fun h => h.imp_right fun h => ⟨h.1, (Address.toNat_lt_iff _ _).mp h.2⟩⟩

theorem IsRanking.unique {t : DeviceTable} {ds ds' : List Device} (h : IsRanking t ds)
    (h' : IsRanking t ds') : ds = ds' := by
  obtain ⟨hperm, hranked⟩ := (isRanking_iff t ds).mp h
  obtain ⟨hperm', hranked'⟩ := (isRanking_iff t ds').mp h'
  refine List.Perm.eq_of_pairwise ?_ hranked hranked' (hperm.trans hperm'.symm)
  intro a b _ _ hab hba
  exact absurd hba hab.asymm

theorem isRanking_sortByActivity {t : DeviceTable} {enumeration : List Device}
    (h : enumeration.Perm t.devices) : IsRanking t (sortByActivity enumeration) := by
  have hdistinct : (enumeration.map Device.address).Nodup :=
    (h.map Device.address).nodup_iff.mpr t.distinct
  exact (isRanking_iff t _).mpr
    ⟨(List.mergeSort_perm enumeration ranksBefore).trans h, pairwise_sortByActivity hdistinct⟩

theorem isRanking_sorted (t : DeviceTable) : IsRanking t t.sorted :=
  isRanking_sortByActivity (List.Perm.refl t.devices)

/-- However the records of a table are enumerated, they are put into the one ranking of
the table, which is the list that reports show. So tables with the same records give the
same list. -/
theorem isRanking_iff_eq_sortByActivity (ss : List Sighting) {enumeration : List Device}
    (h : enumeration.Perm (ofSightings ss).devices) :
    (∀ ds, IsRanking (ofSightings ss) ds ↔ ds = sortByActivity enumeration) ∧
      (ofSightings ss).sorted = sortByActivity enumeration ∧
      ∀ ss' enumeration', enumeration'.Perm (ofSightings ss').devices →
        (∀ a, (ofSightings ss').get? a = (ofSightings ss).get? a) →
        sortByActivity enumeration' = sortByActivity enumeration ∧
          (ofSightings ss').sorted = (ofSightings ss).sorted := by
  have hranking : IsRanking (ofSightings ss) (sortByActivity enumeration) :=
    isRanking_sortByActivity h
  refine ⟨fun ds => ⟨fun hds => hds.unique hranking, fun hds => hds ▸ hranking⟩,
    (isRanking_sorted _).unique hranking, ?_⟩
  intro ss' enumeration' h' hsame
  have hdevices : (ofSightings ss').devices.Perm (ofSightings ss).devices := perm_of_get?_eq hsame
  exact ⟨(isRanking_sortByActivity (h'.trans hdevices)).unique hranking,
    (isRanking_sortByActivity hdevices).unique (isRanking_sorted _)⟩

/-- Three devices, enumerated from the last seen to the first. -/
theorem isRanking_iff_eq_sortByActivity_reversed :
    let beacon (last : UInt8) : Sighting :=
      { address := ⟨0, 0, 0, 0, 0, last⟩, addressType := .publicAddress, type := .connectable,
        rssi := -50, fields := {}, time := ⟨0⟩ }
    let ss := [beacon 3, beacon 3, beacon 2, beacon 1]
    let enumeration := (ofSightings ss).devices.reverse
    enumeration.Perm (ofSightings ss).devices ∧
      (sortByActivity enumeration).map Device.standing =
        [(⟨0, 0, 0, 0, 0, 3⟩, 2), (⟨0, 0, 0, 0, 0, 1⟩, 1), (⟨0, 0, 0, 0, 0, 2⟩, 1)] := by
  intro beacon ss enumeration
  have hperm : enumeration.Perm (ofSightings ss).devices := List.reverse_perm _
  refine ⟨hperm, ?_⟩
  let most := (Device.ofSighting (beacon 3)).observe (beacon 3)
  let second := Device.ofSighting (beacon 2)
  let first := Device.ofSighting (beacon 1)
  have hdevices : (ofSightings ss).devices = [most, second, first] := rfl
  have hranking : IsRanking (ofSightings ss) [most, first, second] := by
    have hranked : ([most, first, second].map Device.standing).Pairwise Outranks := by decide
    rw [isRanking_iff, hdevices]
    exact ⟨.cons _ (.swap _ _ _), List.pairwise_map.mp hranked⟩
  rw [← ((isRanking_iff_eq_sortByActivity ss hperm).1 _).mp hranking]
  rfl

end DeviceTable

end BleCapture
