import BleCapture.Proofs.Queue.Lossy
import BleCapture.Proofs.Session.Steps
import BleCapture.Proofs.Tally
import Mathlib.Algebra.Ring.Nat

/-!
# The books of a session

Counters, histograms, log and device table of a session agree with the records
that its steps returned and with the frames that were given to it, whatever the
filter and the order of steps. The equations are an invariant, `Session.Accounts`,
that every step keeps.
-/

namespace BleCapture

-- ---------------------------------------------------------------------------
-- What is counted
-- ---------------------------------------------------------------------------

/-- An LE meta event that cannot be read, or not to its end. -/
def Frame.isFaulty (f : Frame) : Bool :=
  f.type = .leMetaEvent &&
    match f.leMetaEvent with
    | .ok event => event.fault.isSome
    | .error _ => true

theorem Frame.isSome_fault_reading (f : Frame) : f.reading.fault.isSome = f.isFaulty := by
  unfold reading isFaulty
  split
  · rename_i h
    cases f.leMetaEvent <;> simp [h]
  · rename_i h
    simp [h]

/-- An event frame without even an event code. -/
def Frame.isEmptyEvent (f : Frame) : Bool :=
  f.type = .generalEvent && f.payload.isEmpty

/-- An event frame has an event code unless it is empty. -/
theorem Frame.eventCode_or_isEmptyEvent (f : Frame) :
    ((if f.eventCode.isSome then 1 else 0) + if f.isEmptyEvent then 1 else 0) =
      if PacketClass.event = f.type.packetClass then 1 else 0 := by
  unfold eventCode isEmptyEvent
  cases f.type with
  | generalEvent => cases f.payload <;> rfl
  | _ => rfl

/-- Packets counted over all devices. -/
def DeviceTable.packetCount (t : DeviceTable) : Nat :=
  (t.devices.map Device.packetCount).sum

theorem DeviceTable.packetCount_observe (t : DeviceTable) (s : Sighting) :
    (t.observe s).packetCount = t.packetCount + 1 := by
  have hsum : ∀ ds : List Device, ((observeIn s ds).map Device.packetCount).sum =
      (ds.map Device.packetCount).sum + 1 := by
    intro ds
    induction ds with
    | nil => rfl
    | cons d rest ih =>
      simp only [observeIn]
      split
      · have hd : (d.observe s).packetCount = d.packetCount + 1 := rfl
        simp only [List.map_cons, List.sum_cons, hd]
        omega
      · simp only [List.map_cons, List.sum_cons, ih]
        omega
  exact hsum t.devices

theorem DeviceTable.packetCount_foldl_observe (now : Timestamp) (rs : List Report)
    (t : DeviceTable) :
    (rs.foldl (fun t r => t.observe (r.sighting now)) t).packetCount =
      t.packetCount + rs.length := by
  induction rs generalizing t with
  | nil => rfl
  | cons r rest ih =>
    rw [List.foldl_cons, ih, packetCount_observe, List.length_cons]
    omega

theorem PacketClass.rank_injective {c d : PacketClass} (h : c.rank = d.rank) : c = d := by
  cases c <;> cases d <;> simp_all [rank]

namespace Session

-- ---------------------------------------------------------------------------
-- The invariant
-- ---------------------------------------------------------------------------

/-- What a session holds is what its records say. -/
structure Books (records : List PacketRecord) (s : Session) : Prop where
  packets : s.packets = records.length
  types_total : s.types.total = s.packets
  types_ascending : s.types.Ascending PacketClass.rank
  bytes : s.bytes = (records.map fun p => p.frame.toH4.length).sum
  log : s.log.toList = records.rtake (min s.packets logCapacity)
  events_total : s.events.total + records.countP (·.frame.isEmptyEvent) = s.types.count .event
  sightings : s.devices.packetCount =
    (records.map fun p => p.frame.reading.reports.countP s.filter.admitsReport).sum

/-- A session agrees with the steps it went through and the records that they
returned. -/
structure Accounts (tag : String) (filter : PacketFilter) (steps : List SessionStep)
    (records : List PacketRecord) (s : Session) : Prop extends Books records s where
  filter_eq : s.filter = filter
  /-- There is a record for every given frame that the filter accepts. -/
  accepted : records.map (fun p => (p.frame, p.time)) =
    (steps.filterMap (SessionStep.frame? tag)).filter fun p => s.accepts p.1.reading
  /-- Faults count whether or not the filter accepts their frame. -/
  errors : s.errors = steps.countP (SessionStep.isRejectedLine tag) +
    steps.countP SessionStep.isError +
    (steps.filterMap (SessionStep.frame? tag)).countP (·.1.isFaulty)

theorem rtake_min_length (l : List α) (n : Nat) : l.rtake (min l.length n) = l.rtake n := by
  unfold List.rtake
  congr 1
  omega

theorem books_start (start : Timestamp) (filter : PacketFilter) :
    Books [] { start, filter } where
  packets := rfl
  types_total := rfl
  types_ascending := List.Pairwise.nil
  bytes := rfl
  log := rfl
  events_total := rfl
  sightings := rfl

section
variable {tag : String} {filter : PacketFilter} {steps : List SessionStep}
  {records : List PacketRecord} {s : Session}

theorem accounts_start (tag : String) (start : Timestamp) (filter : PacketFilter) :
    Accounts tag filter [] [] { start, filter } :=
  ⟨books_start start filter, rfl, rfl, rfl⟩

/-- Errors and the end of the capture are not in the books. -/
theorem Books.with_errors (h : Books records s) (errors : Nat) (finished : Option Timestamp) :
    Books records { s with errors, finished } :=
  ⟨h.packets, h.types_total, h.types_ascending, h.bytes, h.log, h.events_total, h.sightings⟩

theorem total_events_addFrame (s : Session) (f : Frame) (now : Timestamp) :
    (s.addFrame f now).events.total = s.events.total + if f.eventCode.isSome then 1 else 0 := by
  simp only [addFrame]
  cases f.eventCode with
  | none => rfl
  | some code => exact Tally.total_bump code s.events

theorem Books.addFrame (h : Books records s) (f : Frame) (now : Timestamp) :
    Books (records ++ [s.recordOf f now]) (s.addFrame f now) where
  packets := by
    have hp := h.packets
    simp [Session.addFrame, hp]
  types_total := by
    have ht := h.types_total
    simp [Session.addFrame, Tally.total_bump, ht]
  types_ascending := h.types_ascending.bump PacketClass.rank_injective _
  bytes := by
    have hb := h.bytes
    simp [Session.addFrame, recordOf, hb]
  log := by
    have hlog : s.log.toList = records.rtake logCapacity := by
      rw [h.log, h.packets, rtake_min_length]
    have hlen : (s.addFrame f now).packets = (records ++ [s.recordOf f now]).length := by
      have hp := h.packets
      simp [Session.addFrame, hp]
    rw [hlen, rtake_min_length]
    exact LossyQueue.toList_enqueue_of_rtake (by decide) hlog _
  events_total := by
    have hold := h.events_total
    have hnew := total_events_addFrame s f now
    have hcode := f.eventCode_or_isEmptyEvent
    have htypes : (s.addFrame f now).types.count .event = _ :=
      h.types_ascending.count_bump f.type.packetClass .event
    rw [List.countP_append, List.countP_singleton, hnew, htypes]
    rw [← hold, ← hcode]
    exact Nat.add_add_add_comm _ _ _ _
  sightings := by
    have hs := h.sightings
    simp [Session.addFrame, DeviceTable.packetCount_foldl_observe, recordOf, hs,
      List.countP_eq_length_filter]

theorem accepts_of_filter_eq {s t : Session} (h : t.filter = s.filter) (r : Reading) :
    t.accepts r = s.accepts r := by
  simp only [accepts, h]

/-- What `recordFrame` does to the books, by the filter's verdict. -/
theorem Books.recordFrame (h : Books records s) (f : Frame) (now : Timestamp) :
    Books (records ++ (s.recordFrame f now).2.toList) (s.recordFrame f now).1 := by
  have hcounted : Books records (s.countFault f.reading) := by
    unfold countFault
    split
    · exact h.with_errors _ _
    · exact h
  have hrecord : (s.countFault f.reading).recordOf f now = s.recordOf f now := by
    unfold countFault
    split <;> rfl
  rw [recordFrame_eq]
  split
  · rw [← hrecord]
    exact hcounted.addFrame f now
  · simpa using hcounted

@[simp] theorem filter_recordFrame (s : Session) (f : Frame) (now : Timestamp) :
    (s.recordFrame f now).1.filter = s.filter := by
  rw [recordFrame_eq]
  unfold countFault
  split <;> split <;> rfl

theorem errors_recordFrame (s : Session) (f : Frame) (now : Timestamp) :
    (s.recordFrame f now).1.errors = s.errors + if f.isFaulty then 1 else 0 := by
  rw [recordFrame_eq, ← Frame.isSome_fault_reading]
  unfold countFault
  split <;> split <;> rfl

theorem toList_record (s : Session) (f : Frame) (now : Timestamp) :
    (s.recordFrame f now).2.toList =
      if s.accepts f.reading then [s.recordOf f now] else [] := by
  rw [recordFrame_eq]
  split <;> rfl

theorem toList_recordFrame (s : Session) (f : Frame) (now : Timestamp) :
    (s.recordFrame f now).2.toList.map (fun p => (p.frame, p.time)) =
      if s.accepts f.reading then [(f, now)] else [] := by
  rw [toList_record]
  split <;> rfl

theorem Accounts.step (h : Accounts tag filter steps records s) (x : SessionStep) :
    Accounts tag filter (steps ++ [x]) (records ++ (s.step tag x).2.toList) (s.step tag x).1 := by
  have haccepted := h.accepted
  have herrors := h.errors
  obtain ⟨f, now, hframe, hline, herror, hstep⟩ | ⟨hframe, finished, hstep⟩ :=
    step_cases tag s x
  · have hgiven : (steps ++ [x]).filterMap (SessionStep.frame? tag) =
        steps.filterMap (SessionStep.frame? tag) ++ [(f, now)] := by
      simp [hframe]
    rw [hstep]
    refine ⟨h.toBooks.recordFrame f now, ?_, ?_, ?_⟩
    · rw [filter_recordFrame, h.filter_eq]
    · rw [hgiven, List.map_append, haccepted, toList_recordFrame, List.filter_append]
      simp only [accepts_of_filter_eq (filter_recordFrame s f now)]
      simp [List.filter_cons]
    · rw [hgiven, errors_recordFrame, herrors]
      simp only [List.countP_append, List.countP_singleton, hline, herror]
      simp
      omega
  · have hgiven : (steps ++ [x]).filterMap (SessionStep.frame? tag) =
        steps.filterMap (SessionStep.frame? tag) := by
      simp [hframe]
    rw [hstep]
    refine ⟨by simpa using h.toBooks.with_errors _ _, h.filter_eq, ?_, ?_⟩
    · rw [hgiven, Option.toList_none, List.append_nil]
      exact haccepted
    · rw [hgiven, List.countP_append, List.countP_append, List.countP_singleton,
        List.countP_singleton]
      dsimp only
      omega

/-- The books stay right over any further steps. -/
theorem Accounts.run (h : Accounts tag filter steps records s) (more : List SessionStep) :
    Accounts tag filter (steps ++ more) (records ++ (s.run tag more).2) (s.run tag more).1 := by
  induction more generalizing steps records s with
  | nil =>
    rw [Session.run, List.append_nil, List.append_nil]
    exact h
  | cons x rest ih =>
    have hrest := ih (h.step x)
    rw [List.append_assoc, List.append_assoc, List.singleton_append] at hrest
    exact hrest

end

/-- The books of every session are right: of a fresh one, and after every step
of every kind. -/
theorem run_accounts (tag : String) (start : Timestamp) (filter : PacketFilter)
    (steps : List SessionStep) :
    Accounts tag filter steps (run tag { start, filter } steps).2
      (run tag { start, filter } steps).1 := by
  induction steps using List.reverseRecOn with
  | nil => exact ⟨books_start start filter, rfl, rfl, rfl⟩
  | append_singleton steps x ih =>
    rw [run_concat]
    exact ih.step x

end Session

end BleCapture
