import BleCapture.Proofs.Device.History
import BleCapture.Proofs.Session.Accounting

/-!
# Sessions with a filter and without

A filter decides which frames are recorded and which devices are seen. What it
lets through looks as it would without a filter, and errors are counted all the
same. A run with a filter and one without go through the same steps together.
-/

namespace BleCapture

/-- The contents of a record. Which report in it is shown is up to the filter. -/
def PacketRecord.contents (p : PacketRecord) :
    Timestamp × List UInt8 × PacketType × Option UInt8 × Option UInt8 × Option UInt16 :=
  (p.time, p.raw, p.frame.type, p.frame.eventCode, p.frame.subevent, p.frame.opcode)

/-- The reports that a filter admits, as sightings of their senders. -/
def PacketFilter.sightings (filter : PacketFilter) (given : List (Frame × Timestamp)) :
    List Sighting :=
  given.flatMap fun (f, time) =>
    (f.reading.reports.filter filter.admitsReport).map (·.sighting time)

namespace PacketFilter

theorem sightings_concat (filter : PacketFilter) (given : List (Frame × Timestamp)) (f : Frame)
    (now : Timestamp) :
    filter.sightings (given ++ [(f, now)]) =
      filter.sightings given ++
        (f.reading.reports.filter filter.admitsReport).map (·.sighting now) := by
  simp [sightings]

@[simp] theorem admits_empty (address : Option Address) (name : Option String)
    (rssi : Option Int8) : admits {} address name rssi = true := rfl

@[simp] theorem admitsReport_empty (r : Report) : admitsReport {} r = true := rfl

theorem admitsReport_address (m : Address) (r : Report) :
    admitsReport { address := some m } r = decide (r.address = m) := by
  simp [admitsReport, admits, admitsAddress, admitsName, admitsRssi, beq_eq_decide]

/-- An address condition keeps the sightings of that address. -/
theorem sightings_address (m : Address) (given : List (Frame × Timestamp)) :
    sightings { address := some m } given = sightingsOf m (sightings {} given) := by
  have hreports : ∀ (now : Timestamp) (rs : List Report),
      (rs.filter (admitsReport { address := some m })).map (·.sighting now) =
        ((rs.filter (admitsReport {})).map (·.sighting now)).filter (·.address = m) := by
    intro now rs
    have hall : ∀ r ∈ rs, admitsReport {} r = true := fun r _ => rfl
    rw [List.filter_map, List.filter_eq_self.mpr hall]
    exact congrArg _ (List.filter_congr fun r _ => admitsReport_address m r)
  simp only [sightings, sightingsOf, List.filter_flatMap, hreports]

end PacketFilter

theorem sightingsOf_sightingsOf (a m : Address) (ss : List Sighting) :
    sightingsOf a (sightingsOf m ss) = if a = m then sightingsOf m ss else [] := by
  unfold sightingsOf
  rw [List.filter_filter]
  split
  · rename_i h
    simp [h]
  · rename_i h
    rw [List.filter_eq_nil_iff]
    rintro s - hs
    simp only [Bool.and_eq_true, decide_eq_true_eq] at hs
    exact h (hs.1.symm.trans hs.2)

namespace DeviceTable

/-- A table restricted to one address is the table of its sightings. -/
theorem get?_ofSightings_sightingsOf (a m : Address) (ss : List Sighting) :
    (ofSightings (sightingsOf m ss)).get? a =
      if a = m then (ofSightings ss).get? a else none := by
  rw [get?_ofSightings, get?_ofSightings, sightingsOf_sightingsOf]
  split
  · rename_i h
    rw [h]
  · rfl

theorem foldl_observe_sighting (now : Timestamp) (rs : List Report) (ss : List Sighting) :
    rs.foldl (fun t r => t.observe (r.sighting now)) (ofSightings ss) =
      ofSightings (ss ++ rs.map (·.sighting now)) := by
  rw [ofSightings, ofSightings, List.foldl_append, List.foldl_map]

end DeviceTable

namespace Session

variable {tag : String} {filter : PacketFilter} {s u : Session}

-- ---------------------------------------------------------------------------
-- One frame
-- ---------------------------------------------------------------------------

/-- A frame that is not recorded leaves nothing but the fault found in it. -/
theorem recordFrame_of_none {f : Frame} {now : Timestamp} (h : (s.recordFrame f now).2 = none) :
    (s.recordFrame f now).1 = { s with errors := s.errors + if f.isFaulty then 1 else 0 } := by
  rw [recordFrame_eq] at h ⊢
  split
  · rename_i hacc
    rw [if_pos hacc] at h
    cases h
  · rw [← Frame.isSome_fault_reading]
    unfold countFault
    split <;> rfl

/-- A frame that is not accepted has no report that the filter admits. -/
theorem filter_admitsReport_of_not_accepts {r : Reading} (h : ¬ s.accepts r = true) :
    r.reports.filter s.filter.admitsReport = [] := by
  rw [List.filter_eq_nil_iff]
  intro p hp hadmit
  have hne : r.reports.isEmpty = false := by
    rw [List.isEmpty_eq_false_iff]
    exact List.ne_nil_of_mem hp
  apply h
  rw [accepts, hne]
  exact List.any_eq_true.mpr ⟨p, hp, hadmit⟩

theorem devices_recordFrame {ss : List Sighting} (h : s.devices = DeviceTable.ofSightings ss)
    (f : Frame) (now : Timestamp) :
    (s.recordFrame f now).1.devices =
      DeviceTable.ofSightings
        (ss ++ (f.reading.reports.filter s.filter.admitsReport).map (·.sighting now)) := by
  have hcounted : (s.countFault f.reading).devices = s.devices ∧
      (s.countFault f.reading).filter = s.filter := by
    unfold countFault
    split <;> exact ⟨rfl, rfl⟩
  rw [recordFrame_eq]
  split
  · simp only [addFrame, hcounted, h]
    exact DeviceTable.foldl_observe_sighting now _ ss
  · rename_i hacc
    rw [filter_admitsReport_of_not_accepts hacc, List.map_nil, List.append_nil, hcounted.1, h]

/-- Without a filter every frame is accepted. -/
theorem accepts_of_filter_empty (h : u.filter = {}) (r : Reading) : u.accepts r = true := by
  rw [accepts, h]
  split
  · rfl
  · rename_i hne
    obtain ⟨p, hp⟩ := List.exists_mem_of_ne_nil r.reports (by simpa using hne)
    exact List.any_eq_true.mpr ⟨p, hp, rfl⟩

-- ---------------------------------------------------------------------------
-- Two runs
-- ---------------------------------------------------------------------------

/-- A run with a filter, beside the run without one over the same frames. -/
structure Selects (filter : PacketFilter) (given : List (Frame × Timestamp))
    (filtered full : Session × List PacketRecord) : Prop where
  filter_eq : filtered.1.filter = filter
  unfiltered : full.1.filter = {}
  errors : filtered.1.errors = full.1.errors
  /-- The records are those of the full run whose frame the filter accepts. -/
  records : filtered.2.map PacketRecord.contents =
    (full.2.filter fun p => filtered.1.accepts p.frame.reading).map PacketRecord.contents
  devices : filtered.1.devices = DeviceTable.ofSightings (filter.sightings given)
  all_devices : full.1.devices = DeviceTable.ofSightings (({} : PacketFilter).sightings given)

theorem selects_start (start : Timestamp) (filter : PacketFilter) :
    Selects filter [] ({ start, filter }, []) ({ start }, []) :=
  ⟨rfl, rfl, rfl, rfl, rfl, rfl⟩

namespace Selects

variable {given : List (Frame × Timestamp)} {ps qs : List PacketRecord}

theorem recordFrame (h : Selects filter given (s, ps) (u, qs)) (f : Frame) (now : Timestamp) :
    Selects filter (given ++ [(f, now)])
      ((s.recordFrame f now).1, ps ++ (s.recordFrame f now).2.toList)
      ((u.recordFrame f now).1, qs ++ (u.recordFrame f now).2.toList) where
  filter_eq := by rw [filter_recordFrame, h.filter_eq]
  unfiltered := by rw [filter_recordFrame, h.unfiltered]
  errors := by
    have herrors : s.errors = u.errors := h.errors
    rw [errors_recordFrame, errors_recordFrame, herrors]
  records := by
    have hrecords : ps.map PacketRecord.contents =
        (qs.filter fun p => s.accepts p.frame.reading).map PacketRecord.contents := h.records
    have hfull := accepts_of_filter_empty h.unfiltered f.reading
    simp only [accepts_of_filter_eq (filter_recordFrame s f now)]
    rw [toList_record, toList_record, if_pos hfull, List.map_append, hrecords, List.filter_append,
      List.map_append]
    -- The one new record of the full run is of this frame, whoever made it.
    have hnew : (if s.accepts f.reading then [s.recordOf f now] else []).map
        PacketRecord.contents =
        ([u.recordOf f now].filter fun p => s.accepts p.frame.reading).map
          PacketRecord.contents := by
      have hframe : (u.recordOf f now).frame = f := rfl
      rw [List.filter_cons, hframe]
      split <;> rfl
    rw [hnew]
  devices := by
    rw [devices_recordFrame h.devices, h.filter_eq, PacketFilter.sightings_concat]
  all_devices := by
    rw [devices_recordFrame h.all_devices, h.unfiltered, PacketFilter.sightings_concat]

/-- Errors and the end of the capture do not depend on the filter. -/
theorem with_errors (h : Selects filter given (s, ps) (u, qs)) (n : Nat)
    (finished finished' : Option Timestamp) :
    Selects filter given ({ s with finished, errors := s.errors + n }, ps)
      ({ u with finished := finished', errors := u.errors + n }, qs) where
  filter_eq := h.filter_eq
  unfiltered := h.unfiltered
  errors := congrArg (· + n) h.errors
  records := h.records
  devices := h.devices
  all_devices := h.all_devices

theorem step (h : Selects filter given (s, ps) (u, qs)) (x : SessionStep) :
    Selects filter (given ++ (x.frame? tag).toList)
      ((s.step tag x).1, ps ++ (s.step tag x).2.toList)
      ((u.step tag x).1, qs ++ (u.step tag x).2.toList) := by
  obtain ⟨f, now, hframe, -, -, hs⟩ | ⟨hframe, finished, hs⟩ := step_cases tag s x
  · obtain ⟨f', now', hframe', -, -, hu⟩ | ⟨hframe', -⟩ := step_cases tag u x
    · obtain ⟨rfl, rfl⟩ : f = f' ∧ now = now' := by simpa [hframe] using hframe'
      rw [hframe, hs, hu]
      exact h.recordFrame f now
    · rw [hframe] at hframe'
      cases hframe'
  · obtain ⟨f', now', hframe', -⟩ | ⟨-, finished', hu⟩ := step_cases tag u x
    · rw [hframe] at hframe'
      cases hframe'
    · rw [hframe, hs, hu]
      simp only [Option.toList_none, List.append_nil, Nat.add_assoc]
      exact h.with_errors _ finished finished'

end Selects

theorem selects_run (tag : String) (start : Timestamp) (filter : PacketFilter)
    (steps : List SessionStep) :
    Selects filter (steps.filterMap (SessionStep.frame? tag))
      (run tag { start, filter } steps) (run tag { start } steps) := by
  induction steps using List.reverseRecOn with
  | nil => exact selects_start start filter
  | append_singleton steps x ih =>
    have hgiven : (steps ++ [x]).filterMap (SessionStep.frame? tag) =
        steps.filterMap (SessionStep.frame? tag) ++ (x.frame? tag).toList := by
      rw [List.filterMap_append]
      cases hx : x.frame? tag <;> simp [hx]
    rw [hgiven, run_concat, run_concat]
    exact ih.step x

/-- A filter changes nothing but what it leaves out. Errors are those of the run
without it, its records are some of those records, and its table is made of the
reports that it admits; with an address alone, this is the whole record of that
address. A frame that is not recorded leaves no trace but in the errors. -/
theorem run_filter_selects (tag : String) (start : Timestamp) (filter : PacketFilter)
    (steps : List SessionStep) :
    let filtered := run tag { start, filter } steps
    let full := run tag { start } steps
    let given := steps.filterMap (SessionStep.frame? tag)
    filtered.1.errors = full.1.errors ∧
      (filtered.2.map PacketRecord.contents).Sublist (full.2.map PacketRecord.contents) ∧
      filtered.2.map PacketRecord.contents =
        (full.2.filter fun p => filtered.1.accepts p.frame.reading).map PacketRecord.contents ∧
      filtered.1.devices = DeviceTable.ofSightings (filter.sightings given) ∧
      (∀ m a, filter = { address := some m } →
        filtered.1.devices.get? a = if a = m then full.1.devices.get? a else none) ∧
      ∀ (s : Session) (f : Frame) (now : Timestamp), (s.recordFrame f now).2 = none →
        ∃ errors, (s.recordFrame f now).1 = { s with errors } := by
  intro filtered full given
  have h : Selects filter given filtered full := selects_run tag start filter steps
  refine ⟨h.errors, ?_, h.records, h.devices, ?_, ?_⟩
  · rw [h.records]
    exact List.filter_sublist.map _
  · rintro m a rfl
    rw [h.devices, h.all_devices, PacketFilter.sightings_address]
    exact DeviceTable.get?_ofSightings_sightingsOf a m _
  · intro s f now hnone
    exact ⟨_, recordFrame_of_none hnone⟩

/-- Two senders in one event, the second cut off, and an event without sender;
the filter wants the second sender. -/
theorem run_filter_selects_cut_event :
    let wanted : Address := ⟨0xC0, 1, 2, 3, 4, 5⟩
    let other : Address := ⟨0xC0, 1, 2, 3, 4, 6⟩
    let reports : List Report :=
      [⟨.connectable, .random, other, -40, []⟩, ⟨.connectable, .random, wanted, -50, []⟩]
    let whole := Frame.ofPayload .leMetaEvent (Report.encodeAll reports)
    let cut := Frame.ofPayload .leMetaEvent ((Report.encodeAll reports).take 21)
    let steps : List SessionStep := [.frame cut ⟨1⟩, .frame whole ⟨2⟩]
    let s := (run Line.defaultTag { start := ⟨0⟩, filter := { address := some wanted } } steps).1
    s.errors = 1 ∧ s.packets = 1 ∧ s.devices.get? other = none ∧
      ((s.recordFrame cut ⟨3⟩).2 = none ∧
        ∃ errors, (s.recordFrame cut ⟨3⟩).1 = { s with errors }) := by
  intro wanted other reports whole cut steps s
  have h := run_filter_selects Line.defaultTag ⟨0⟩ { address := some wanted } steps
  have hnone : (s.recordFrame cut ⟨3⟩).2 = none := rfl
  exact ⟨rfl, rfl, h.2.2.2.2.1 wanted other rfl, hnone, h.2.2.2.2.2 s cut ⟨3⟩ hnone⟩

end Session

end BleCapture
