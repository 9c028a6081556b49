import BleCapture.Device.Table
import Mathlib.Data.List.Induction
import Mathlib.Data.List.Nodup

/-!
# The device table and its sightings

A device table is built by observing sightings one after the other. Each record
is a fold over the sightings of its own address, so the order in which
different devices interleave does not matter. What the fold leaves in a record
is said field by field, without the fold, in `Device.Summarizes`.
-/

namespace BleCapture

-- ---------------------------------------------------------------------------
-- Lists built at their end
-- ---------------------------------------------------------------------------

theorem getLast?_filterMap_concat (f : α → Option β) (l : List α) (a : α) :
    ((l ++ [a]).filterMap f).getLast? = (f a).or (l.filterMap f).getLast? := by
  rw [List.filterMap_append, List.getLast?_append]
  cases h : f a <;> simp [h]

theorem eraseDups_concat [BEq α] [LawfulBEq α] [DecidableEq α] (l : List α) (a : α) :
    (l ++ [a]).eraseDups = if a ∈ l then l.eraseDups else l.eraseDups ++ [a] := by
  rw [List.eraseDups_append]
  split <;> simp_all [List.removeAll, List.eraseDups_cons]

-- ---------------------------------------------------------------------------
-- One record
-- ---------------------------------------------------------------------------

namespace AdvType

theorem mem_insert (t u : AdvType) (ts : List AdvType) : u ∈ t.insert ts ↔ u = t ∨ u ∈ ts := by
  induction ts with
  | nil => simp [insert]
  | cons v rest ih =>
    simp only [insert]
    split
    · rename_i h
      simp [h]
    · split
      · simp
      · simp only [List.mem_cons, ih]
        exact or_left_comm

theorem insert_ascending (t : AdvType) {ts : List AdvType}
    (h : ts.Pairwise (·.rank < ·.rank)) : (t.insert ts).Pairwise (·.rank < ·.rank) := by
  induction ts with
  | nil => simp [insert]
  | cons v rest ih =>
    obtain ⟨hv, hrest⟩ := List.pairwise_cons.mp h
    simp only [insert]
    split
    · exact h
    · rename_i hne
      split
      · rename_i hlt
        refine List.pairwise_cons.mpr ⟨?_, h⟩
        intro u hu
        rcases List.mem_cons.mp hu with rfl | hu
        · exact hlt
        · exact Nat.lt_trans hlt (hv u hu)
      · rename_i hge
        refine List.pairwise_cons.mpr ⟨?_, ih hrest⟩
        intro u hu
        rcases (mem_insert t u rest).mp hu with rfl | hu
        · have : u.rank ≠ v.rank := fun e => hne (rank_injective e)
          omega
        · exact hv u hu

end AdvType

namespace Device

theorem addServices_eraseDups (known services : List UInt16) :
    addServices known.eraseDups services = (known ++ services).eraseDups := by
  induction services generalizing known with
  | nil => simp [addServices]
  | cons s rest ih =>
    have hstep : (if s ∈ known.eraseDups then known.eraseDups else known.eraseDups ++ [s]) =
        (known ++ [s]).eraseDups := by
      rw [eraseDups_concat]
      simp only [List.mem_eraseDups]
    rw [← List.singleton_append, ← List.append_assoc, ← ih (known ++ [s]), ← hstep]
    rfl

/-- The record that a device's own sightings leave. -/
def ofHistory? : List Sighting → Option Device
  | [] => none
  | s :: rest => some (rest.foldl observe (ofSighting s))

theorem ofHistory?_concat (ss : List Sighting) (s : Sighting) :
    ofHistory? (ss ++ [s]) = some (((ofHistory? ss).map (·.observe s)).getD (ofSighting s)) := by
  cases ss with
  | nil => rfl
  | cons first rest => simp [ofHistory?]

/-- What a record says about the sightings it was made of. -/
structure Summarizes (d : Device) (ss : List Sighting) : Prop where
  packetCount : d.packetCount = ss.length
  firstSeen : (ss.map Sighting.time).head? = some d.firstSeen
  lastSeen : (ss.map Sighting.time).getLast? = some d.lastSeen
  least_mem : d.signal.least ∈ ss.map Sighting.rssi
  least_le : ∀ r ∈ ss.map Sighting.rssi, d.signal.least ≤ r
  greatest_mem : d.signal.greatest ∈ ss.map Sighting.rssi
  le_greatest : ∀ r ∈ ss.map Sighting.rssi, r ≤ d.signal.greatest
  addressType : (ss.map Sighting.addressType).getLast? = some d.addressType
  mem_advTypes : ∀ t, t ∈ d.advTypes ↔ t ∈ ss.map Sighting.type
  advTypes_ascending : d.advTypes.Pairwise (·.rank < ·.rank)
  name : d.name = (ss.filterMap (·.fields.name?)).getLast?
  txPower : d.txPower = (ss.filterMap (·.fields.txPower)).getLast?
  appearance : d.appearance = (ss.filterMap (·.fields.appearance)).getLast?
  flags : d.flags = (ss.filterMap (·.fields.flags)).getLast?
  /-- Company and data come from one sighting, the last that names a company. -/
  manufacturer : (d.companyId, d.manufacturerData) =
    match (ss.filter (·.fields.companyId.isSome)).getLast? with
    | some s => (s.fields.companyId, s.fields.manufacturerData)
    | none => (none, [])
  services : d.services = (ss.flatMap (·.fields.services)).eraseDups

theorem summarizes_ofSighting (s : Sighting) : (ofSighting s).Summarizes [s] where
  packetCount := rfl
  firstSeen := rfl
  lastSeen := rfl
  least_mem := by simp [ofSighting, merge, SignalStats.first]
  least_le := by simp [ofSighting, merge, SignalStats.first]
  greatest_mem := by simp [ofSighting, merge, SignalStats.first]
  le_greatest := by simp [ofSighting, merge, SignalStats.first]
  addressType := rfl
  mem_advTypes t := by simp [ofSighting, merge, AdvType.insert]
  advTypes_ascending := by simp [ofSighting, merge, AdvType.insert]
  name := by cases h : s.fields.name? <;> simp [ofSighting, merge, h]
  txPower := by cases h : s.fields.txPower <;> simp [ofSighting, merge, h]
  appearance := by cases h : s.fields.appearance <;> simp [ofSighting, merge, h]
  flags := by cases h : s.fields.flags <;> simp [ofSighting, merge, h]
  manufacturer := by cases h : s.fields.companyId <;> simp [ofSighting, merge, h]
  services := by
    have h := addServices_eraseDups [] s.fields.services
    simpa [ofSighting, merge] using h

theorem summarizes_observe {d : Device} {ss : List Sighting} (h : d.Summarizes ss)
    (s : Sighting) : (d.observe s).Summarizes (ss ++ [s]) where
  packetCount := by
    have hc : d.signal.count = ss.length := h.packetCount
    simp [packetCount, observe, merge, SignalStats.add, hc]
  firstSeen := by
    rw [List.map_append, List.head?_append, h.firstSeen]
    rfl
  lastSeen := by
    rw [List.map_append, List.getLast?_append]
    rfl
  least_mem := by
    have hm := h.least_mem
    simp only [observe, merge, SignalStats.add, List.map_append, List.mem_append]
    split
    · exact .inr (by simp)
    · exact .inl hm
  least_le := by
    intro r hr
    simp only [List.map_append, List.mem_append, List.map_cons, List.map_nil,
      List.mem_singleton] at hr
    simp only [observe, merge, SignalStats.add]
    rcases hr with hr | rfl
    · have hle := h.least_le r hr
      split
      · rename_i hlt
        exact Int8.le_trans (Int8.le_of_lt hlt) hle
      · exact hle
    · split
      · exact Int8.le_refl _
      · rename_i hge
        exact Int8.not_lt.mp hge
  greatest_mem := by
    have hm := h.greatest_mem
    simp only [observe, merge, SignalStats.add, List.map_append, List.mem_append]
    split
    · exact .inr (by simp)
    · exact .inl hm
  le_greatest := by
    intro r hr
    simp only [List.map_append, List.mem_append, List.map_cons, List.map_nil,
      List.mem_singleton] at hr
    simp only [observe, merge, SignalStats.add]
    rcases hr with hr | rfl
    · have hle := h.le_greatest r hr
      split
      · rename_i hlt
        exact Int8.le_trans hle (Int8.le_of_lt hlt)
      · exact hle
    · split
      · exact Int8.le_refl _
      · rename_i hge
        exact Int8.not_lt.mp hge
  addressType := by
    rw [List.map_append, List.getLast?_append]
    rfl
  mem_advTypes t := by
    have hm := h.mem_advTypes t
    simp only [observe, merge, AdvType.mem_insert, List.map_append, List.mem_append,
      List.map_cons, List.map_nil, List.mem_singleton, hm]
    exact or_comm
  advTypes_ascending := AdvType.insert_ascending s.type h.advTypes_ascending
  name := by
    rw [getLast?_filterMap_concat, ← h.name]
    rfl
  txPower := by
    rw [getLast?_filterMap_concat, ← h.txPower]
    rfl
  appearance := by
    rw [getLast?_filterMap_concat, ← h.appearance]
    rfl
  flags := by
    rw [getLast?_filterMap_concat, ← h.flags]
    rfl
  manufacturer := by
    have hm := h.manufacturer
    rw [List.filter_append, List.getLast?_append]
    cases hc : s.fields.companyId with
    | none => simpa [observe, merge, hc] using hm
    | some c => simp [observe, merge, hc]
  services := by
    rw [List.flatMap_append, ← addServices_eraseDups, ← h.services]
    simp [observe, merge]

/-- Every record is a summary of the sightings it was folded from. -/
theorem summarizes_ofHistory? {ss : List Sighting} {d : Device} (h : ofHistory? ss = some d) :
    d.Summarizes ss := by
  -- A record grows at the end of its history, so the prefix is generalized.
  have grow : ∀ (more : List Sighting) {past : List Sighting} {d : Device},
      d.Summarizes past → (more.foldl observe d).Summarizes (past ++ more) := by
    intro more
    induction more with
    | nil =>
      intro past d hd
      simpa using hd
    | cons s rest ih =>
      intro past d hd
      have hnext := ih (summarizes_observe hd s)
      rwa [List.append_assoc, List.singleton_append] at hnext
  cases ss with
  | nil => simp [ofHistory?] at h
  | cons s rest =>
    simp only [ofHistory?, Option.some.injEq] at h
    subst h
    exact grow rest (summarizes_ofSighting s)

end Device

-- ---------------------------------------------------------------------------
-- The table
-- ---------------------------------------------------------------------------

/-- The sightings of one address, in their order. -/
def sightingsOf (a : Address) (ss : List Sighting) : List Sighting :=
  ss.filter (·.address = a)

namespace DeviceTable

/-- The table that a sequence of sightings builds. -/
def ofSightings (ss : List Sighting) : DeviceTable :=
  ss.foldl observe {}

theorem find?_observeIn (s : Sighting) (a : Address) (ds : List Device) :
    (observeIn s ds).find? (·.address = a) =
      if s.address = a then
        some (((ds.find? (·.address = a)).map (·.observe s)).getD (Device.ofSighting s))
      else ds.find? (·.address = a) := by
  induction ds with
  | nil =>
    by_cases ha : s.address = a <;> simp [observeIn, ha]
  | cons d rest ih =>
    by_cases hd : d.address = s.address
    · by_cases ha : s.address = a <;> simp [observeIn, hd, ha]
    · by_cases ha : d.address = a
      · have hne : s.address ≠ a := fun e => hd (ha.trans e.symm)
        rw [observeIn, if_neg hd, if_neg hne, List.find?_cons_of_pos (by simpa using ha),
          List.find?_cons_of_pos (by simpa using ha)]
      · simp only [observeIn, hd, if_false, List.find?_cons, ha, decide_false, ih]

theorem get?_observe (t : DeviceTable) (s : Sighting) (a : Address) :
    (t.observe s).get? a =
      if s.address = a then some (((t.get? a).map (·.observe s)).getD (Device.ofSighting s))
      else t.get? a :=
  find?_observeIn s a t.devices

theorem ofSightings_concat (ss : List Sighting) (s : Sighting) :
    ofSightings (ss ++ [s]) = (ofSightings ss).observe s := by
  simp [ofSightings]

/-- A record depends on the sightings of its own address alone. -/
theorem get?_ofSightings (ss : List Sighting) (a : Address) :
    (ofSightings ss).get? a = Device.ofHistory? (sightingsOf a ss) := by
  induction ss using List.reverseRecOn with
  | nil => rfl
  | append_singleton ss s ih =>
    rw [ofSightings_concat, get?_observe, ih]
    by_cases h : s.address = a
    · simp [sightingsOf, h, Device.ofHistory?_concat]
    · simp [sightingsOf, h]

theorem addresses_ofSightings (ss : List Sighting) :
    (ofSightings ss).devices.map Device.address = (ss.map Sighting.address).eraseDups := by
  induction ss using List.reverseRecOn with
  | nil => rfl
  | append_singleton ss s ih =>
    rw [ofSightings_concat, List.map_append, List.map_singleton, eraseDups_concat, ← ih]
    have hmem : s.address ∈ (ofSightings ss).devices.map Device.address ↔
        s.address ∈ ss.map Sighting.address := by rw [ih, List.mem_eraseDups]
    simp only [observe, addresses_observeIn, hmem]

theorem find?_eq_some_iff {ds : List Device} (h : (ds.map Device.address).Nodup) (a : Address)
    (d : Device) : ds.find? (·.address = a) = some d ↔ d ∈ ds ∧ d.address = a := by
  constructor
  · intro hf
    exact ⟨List.mem_of_find?_eq_some hf, by simpa using List.find?_some hf⟩
  · rintro ⟨hd, rfl⟩
    induction ds with
    | nil => simp at hd
    | cons e rest ih =>
      obtain ⟨he, hrest⟩ := List.nodup_cons.mp h
      rcases List.mem_cons.mp hd with rfl | hd
      · simp
      · have hne : e.address ≠ d.address := fun hea =>
          he (hea ▸ List.mem_map_of_mem hd)
        rw [List.find?_cons_of_neg (by simpa using hne)]
        exact ih hrest hd

theorem get?_eq_some_iff (t : DeviceTable) (a : Address) (d : Device) :
    t.get? a = some d ↔ d ∈ t.devices ∧ d.address = a :=
  find?_eq_some_iff t.distinct a d

theorem nodup_devices (t : DeviceTable) : t.devices.Nodup :=
  List.Nodup.of_map _ t.distinct

/-- Two tables with the same record for every address hold the same records. -/
theorem perm_of_get?_eq {t u : DeviceTable} (h : ∀ a, t.get? a = u.get? a) :
    t.devices.Perm u.devices := by
  refine (List.perm_ext_iff_of_nodup t.nodup_devices u.nodup_devices).mpr ?_
  intro d
  have ht := get?_eq_some_iff t d.address d
  have hu := get?_eq_some_iff u d.address d
  simp only [and_true] at ht hu
  rw [← ht, ← hu, h]

/-- One record for every address seen, decided by the sightings of that address
alone, whose summary it is. Sightings of different addresses may change places:
the table stays the same. -/
theorem ofSightings_record_per_address (ss : List Sighting) :
    (ofSightings ss).devices.map Device.address = (ss.map Sighting.address).eraseDups ∧
      (∀ a, (ofSightings ss).get? a = none ↔ sightingsOf a ss = []) ∧
      (∀ a d, (ofSightings ss).get? a = some d →
        d.address = a ∧ d.Summarizes (sightingsOf a ss)) ∧
      (∀ a ss', sightingsOf a ss' = sightingsOf a ss →
        (ofSightings ss').get? a = (ofSightings ss).get? a) ∧
      ∀ ss', (∀ a, sightingsOf a ss' = sightingsOf a ss) →
        (∀ a, (ofSightings ss').get? a = (ofSightings ss).get? a) ∧
          (ofSightings ss').devices.Perm (ofSightings ss).devices := by
  have hown : ∀ a ss', sightingsOf a ss' = sightingsOf a ss →
      (ofSightings ss').get? a = (ofSightings ss).get? a := by
    intro a ss' h
    rw [get?_ofSightings, get?_ofSightings, h]
  refine ⟨addresses_ofSightings ss, ?_, ?_, hown, ?_⟩
  · intro a
    rw [get?_ofSightings]
    cases sightingsOf a ss <;> simp [Device.ofHistory?]
  · intro a d h
    refine ⟨((get?_eq_some_iff _ a d).mp h).2, ?_⟩
    rw [get?_ofSightings] at h
    exact Device.summarizes_ofHistory? h
  · intro ss' h
    have hget : ∀ a, (ofSightings ss').get? a = (ofSightings ss).get? a :=
      fun a => hown a ss' (h a)
    exact ⟨hget, perm_of_get?_eq hget⟩

end DeviceTable

end BleCapture
