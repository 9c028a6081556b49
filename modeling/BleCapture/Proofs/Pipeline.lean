import BleCapture.Proofs.Agent
import BleCapture.Proofs.Device.History
import BleCapture.Proofs.Line.RoundTrip
import BleCapture.Proofs.LineReader
import BleCapture.Proofs.Session.Steps
import Mathlib.Algebra.Ring.Nat

/-!
# From the agent to the device table

What the agent keeps comes out at the other end: as lines on the console, as
frames of the reader, as counts of a session and as sightings of its devices.
-/

namespace BleCapture

-- ---------------------------------------------------------------------------
-- Agent to console
-- ---------------------------------------------------------------------------

/-- The line of an advertisement as it goes over the console. -/
def Line.transmitted (tag : String) (a : Advertisement) : List UInt8 :=
  LineReader.written (encodeChars tag.toList a)

namespace Line.Writer

theorem emit_of_unlimited {w : Writer} (h : w.out.limit = none) (a : Advertisement) :
    w.emit a = ({ w with out := w.out.append (transmitted w.tag a) }, none) := by
  simp only [emit, Sink.write, h]
  rfl

theorem handOver_of_unlimited {w : Writer} (h : w.out.limit = none) (l : List Advertisement) :
    ∃ w' : Writer, Agent.handOver emit l w = ([], w', none) ∧ w'.tag = w.tag ∧
      w'.out.limit = none ∧ w'.out.bytes = w.out.bytes ++ l.flatMap (transmitted w.tag) := by
  induction l generalizing w with
  | nil => exact ⟨w, rfl, rfl, h, by simp⟩
  | cons a rest ih =>
    obtain ⟨w', hover, htag, hlimit, hbytes⟩ :=
      ih (w := { w with out := w.out.append (transmitted w.tag a) }) h
    refine ⟨w', ?_, htag, hlimit, ?_⟩
    · rw [Agent.handOver, emit_of_unlimited h]
      exact hover
    · rw [hbytes, Sink.bytes_append, List.flatMap_cons, List.append_assoc]

end Line.Writer

/-- As long as the buffer has not overflowed, what is on the console and what
is in the buffer make up all that was kept. -/
structure Delivered (tag : String) (kept : List Advertisement) (s : Agent × Line.Writer) :
    Prop where
  writer : s.2.tag = tag
  limit : s.2.out.limit = none
  bytes : s.1.buffer.overflowed = 0 →
    s.2.out.bytes ++ s.1.buffer.toList.flatMap (Line.transmitted tag) =
      kept.flatMap (Line.transmitted tag)

namespace Delivered

variable {tag : String} {kept : List Advertisement} {s : Agent × Line.Writer}

theorem deliver (h : Delivered tag kept s) (a : Advertisement) :
    Delivered tag (kept ++ (AgentStep.deliver a).kept?.toList) (s.1.deliver a, s.2) := by
  refine ⟨h.writer, h.limit, ?_⟩
  intro hroom
  rw [Agent.buffer_deliver] at hroom ⊢
  rw [AgentStep.kept?]
  by_cases hempty : a.payload.isEmpty = true
  · rw [if_pos hempty] at hroom ⊢
    rw [if_pos hempty, Option.toList_none, List.append_nil]
    exact h.bytes hroom
  · rw [if_neg hempty] at hroom ⊢
    rw [if_neg hempty]
    rcases Nat.lt_or_ge s.1.buffer.buffered agentCapacity with hlt | hfull
    · rw [LossyQueue.overflowed_enqueue_of_lt hlt] at hroom
      -- The channel of a record is not part of its line.
      rw [LossyQueue.toList_enqueue_of_lt hlt, List.flatMap_append, ← List.append_assoc,
        h.bytes hroom, List.flatMap_append]
      rfl
    · rw [LossyQueue.overflowed_enqueue_of_le hfull] at hroom
      cases hroom

theorem handOver (h : Delivered tag kept s) {l later : List Advertisement}
    {r : Agent × Line.Writer × Option IoError} (hlist : s.1.buffer.toList = l ++ later)
    (hr : Agent.HandedOver Line.Writer.emit s.1 s.2 l later r) :
    Delivered tag kept (r.1, r.2.1) ∧ r.1.buffer.toList = later := by
  obtain ⟨w', hover, htag, hlimit, hbytes⟩ := Line.Writer.handOver_of_unlimited h.limit l
  have hhanded : r.2 = (w', none) := by
    rw [hr.handed, hover]
  have hbuffer : r.1.buffer.toList = later := by
    rw [hr.buffer, hover, List.nil_append]
  rw [h.writer] at hbytes
  refine ⟨⟨?_, ?_, ?_⟩, hbuffer⟩
  · rw [hhanded]
    exact htag.trans h.writer
  · rw [hhanded]
    exact hlimit
  · intro hroom
    rw [hr.overflowed] at hroom
    rw [hhanded, hbuffer, hbytes, ← h.bytes hroom, hlist, List.flatMap_append,
      List.append_assoc]

theorem step (h : Delivered tag kept s) (x : AgentStep) :
    Delivered tag (kept ++ x.kept?.toList) (Agent.step Line.Writer.emit s x) := by
  rcases Agent.step_cases Line.Writer.emit s x with
    ⟨a, rfl, hstep⟩ | ⟨hkept, l, later, failure, hlist, hr⟩
  · rw [hstep]
    exact h.deliver a
  · rw [hkept, Option.toList_none, List.append_nil]
    exact (h.handOver hlist hr).1

theorem run (h : Delivered tag kept s) (steps : List AgentStep) :
    Delivered tag (kept ++ steps.filterMap AgentStep.kept?)
      (Agent.run Line.Writer.emit s steps) := by
  induction steps generalizing kept s with
  | nil =>
    rw [List.filterMap_nil, List.append_nil]
    exact h
  | cons x rest ih =>
    have hrest := ih (h.step x)
    have hkept : (x :: rest).filterMap AgentStep.kept? =
        x.kept?.toList ++ rest.filterMap AgentStep.kept? := by
      rw [List.filterMap_cons]
      cases x.kept? <;> rfl
    rw [hkept, ← List.append_assoc]
    exact hrest

end Delivered

/-- A fresh agent with a fresh console. -/
theorem delivered_start (tag : String) : Delivered tag [] (({} : Agent), ({ tag } : Line.Writer)) :=
  ⟨rfl, rfl, fun _ => rfl⟩

/-- After a drain at the end, all that was kept is on the console. -/
theorem delivered_drain {tag : String} {steps : List AgentStep} {stop : DrainStop} {g : Agent}
    {w : Line.Writer}
    (hrun : Agent.run Line.Writer.emit ({}, { tag }) (steps ++ [.drain stop]) = (g, w))
    (hroom : g.buffer.overflowed = 0) :
    g.buffer.toList = [] ∧
    w.out.bytes = (steps.filterMap AgentStep.kept?).flatMap (Line.transmitted tag) := by
  have hbefore := (delivered_start tag).run steps
  rw [Agent.run, List.foldl_append, ← Agent.run] at hrun
  -- The last step is the drain alone, and it leaves nothing for later.
  obtain ⟨hafter, hempty⟩ := hbefore.handOver (List.append_nil _).symm
    (Agent.handedOver_drain Line.Writer.emit _ stop _)
  obtain ⟨rfl, rfl⟩ := Prod.mk.inj hrun
  have hbytes := hafter.bytes hroom
  rw [hempty, List.flatMap_nil, List.append_nil, List.nil_append] at hbytes
  exact ⟨hempty, hbytes⟩

-- ---------------------------------------------------------------------------
-- Console to session
-- ---------------------------------------------------------------------------

/-- What the device table is told about an advertisement. Data past the room
in one event is not known to it. -/
def Advertisement.sighting (a : Advertisement) (time : Timestamp) : Sighting where
  address := a.address
  addressType := a.addressType
  type := a.type
  rssi := a.rssi
  fields := AdFields.ofPayload (a.payload.take 243)
  time := time

/-- The kind of the advertisement is one that a code stands for. -/
def Advertisement.Coded (a : Advertisement) : Prop := ∃ c, a.type = AdvType.ofCode c

theorem Advertisement.Coded.canonical_report {a : Advertisement} (h : a.Coded) :
    a.report.canonical = a.report := by
  obtain ⟨c, hc⟩ := h
  rw [Report.canonical, Advertisement.report, hc, AdvType.code_ofCode]

namespace Line

theorem reading_frame {a : Advertisement} (h : a.Coded) :
    (frame a).reading = ⟨[a.report], none⟩ := by
  have htype : (frame a).type = .leMetaEvent := rfl
  rw [Frame.reading, if_pos htype, leMetaEvent_frame, h.canonical_report]

theorem length_toH4_frame (a : Advertisement) :
    (frame a).toH4.length = 15 + min a.payload.length 243 := by
  have hwhole : (frame a).payload.take 255 = (frame a).payload :=
    List.take_of_length_le (Nat.le_of_lt_succ (length_payload_frame_lt a))
  have htoH4 : (frame a).toH4 = 0x04 :: Frame.leMetaCode ::
      UInt8.ofNat ((frame a).payload.take 255).length :: (frame a).payload.take 255 := rfl
  rw [htoH4, hwhole, List.length_cons, List.length_cons, List.length_cons, length_payload_frame]
  omega

theorem decode?_encode {tag : String} (h : Workable tag.toList) (a : Advertisement) :
    decode? tag (encode tag a) = some (.ok (frame a)) := by
  rw [decode?, encode, String.toList_ofList, decodeChars?_encodeChars h]

end Line

/-- A session without a filter that has recorded the lines of these
advertisements, the one with number `i` at time `clock i`, and nothing else. -/
structure Captured (clock : Nat → Timestamp) (as : List Advertisement) (s : Session) : Prop where
  filter : s.filter = {}
  errors : s.errors = 0
  packets : s.packets = as.length
  bytes : s.bytes = (as.map fun a => 15 + min a.payload.length 243).sum
  devices : s.devices =
    DeviceTable.ofSightings (as.zipIdx.map fun (a, i) => a.sighting (clock i))

namespace Captured

variable {clock : Nat → Timestamp} {as : List Advertisement} {s : Session}

theorem recordFrame (h : Captured clock as s) {a : Advertisement} (ha : a.Coded) :
    Captured clock (as ++ [a]) (s.recordFrame (Line.frame a) (clock as.length)).1 := by
  -- Without a filter the report is admitted, and with it the frame.
  have hadmits : s.filter.admitsReport a.report = true := by
    rw [h.filter]
    rfl
  have haccepts : s.accepts ⟨[a.report], none⟩ = true := by
    simp [Session.accepts, hadmits]
  have hfault : s.countFault ⟨[a.report], none⟩ = s := rfl
  rw [Session.recordFrame_eq, Line.reading_frame ha, if_pos haccepts, hfault]
  refine ⟨h.filter, h.errors, ?_, ?_, ?_⟩
  · rw [List.length_append, ← h.packets]
    rfl
  · rw [List.map_append, List.sum_append, ← h.bytes, List.map_singleton, List.sum_singleton,
      ← Line.length_toH4_frame]
    rfl
  · have hobserve : (s.addFrame (Line.frame a) (clock as.length)).devices =
        s.devices.observe (a.sighting (clock as.length)) := by
      simp only [Session.addFrame, Line.reading_frame ha, List.filter_cons, hadmits, if_true]
      rfl
    have hindex : (as ++ [a]).zipIdx = as.zipIdx ++ [(a, as.length)] := by
      rw [List.zipIdx_append, Nat.zero_add]
      rfl
    rw [hindex, List.map_append, List.map_singleton, DeviceTable.ofSightings_concat, ← h.devices]
    exact hobserve

/-- Lines that follow on those already captured are captured as well. -/
theorem run {tag : String} (htag : Line.Workable tag.toList) (h : Captured clock as s)
    (more : List Advertisement) (hmore : ∀ a ∈ more, a.Coded) :
    Captured clock (as ++ more)
      (s.run tag (RunState.lineSteps clock as.length (more.map (Line.encode tag)))).1 := by
  induction more generalizing as s with
  | nil =>
    rw [List.append_nil]
    exact h
  | cons a rest ih =>
    obtain ⟨ha, hrest⟩ := List.forall_mem_cons.mp hmore
    have hnext := ih (h.recordFrame ha) hrest
    rw [List.append_assoc, List.singleton_append, List.length_append, List.length_singleton]
      at hnext
    have hstep : s.step tag (.line (Line.encode tag a) (clock as.length)) =
        s.recordFrame (Line.frame a) (clock as.length) := by
      simp only [Session.step, Line.decode?_encode htag]
    rw [List.map_cons, RunState.lineSteps_cons, Session.run_cons, hstep]
    exact hnext

end Captured

theorem captured_start (clock : Nat → Timestamp) (start : Timestamp) :
    Captured clock [] { start } := ⟨rfl, rfl, rfl, rfl, rfl⟩

-- ---------------------------------------------------------------------------
-- All the way
-- ---------------------------------------------------------------------------

/-- A line whose tag holds no newline is read as it was written. -/
theorem Line.unbroken_encodeChars {tag : List Char} (h : '\n' ∉ tag) (a : Advertisement) :
    LineReader.Unbroken (encodeChars tag a) where
  newline := by
    have hbody : '\n' ∉ body a := fun hmem => absurd (graphic_body a _ hmem) (by decide)
    rw [encodeChars_eq, List.mem_append, not_or]
    exact ⟨h, hbody⟩
  carriageReturn := by
    rw [getLast?_encodeChars]
    decide

theorem lines_of_transmitted {tag : String} (h : '\n' ∉ tag.toList) {reads : List (List UInt8)}
    {as : List Advertisement} (hreads : reads.flatten = as.flatMap (Line.transmitted tag))
    (ending : LineReader.Ending) :
    LineReader.lines reads ending = as.map (Line.encode tag) := by
  have hwritten : reads.flatten =
      (as.map (Line.encodeChars tag.toList)).flatMap LineReader.written := by
    rw [hreads, List.flatMap_map]
    rfl
  have hunbroken : ∀ line ∈ as.map (Line.encodeChars tag.toList), LineReader.Unbroken line := by
    intro line hline
    obtain ⟨a, -, rfl⟩ := List.mem_map.mp hline
    exact Line.unbroken_encodeChars h a
  rw [LineReader.lines, LineReader.linesOf_of_flatten hwritten hunbroken, List.map_map]
  rfl

theorem coded_of_kept {steps : List AgentStep} (h : ∀ a, AgentStep.deliver a ∈ steps → a.Coded) :
    ∀ a ∈ steps.filterMap AgentStep.kept?, a.Coded := by
  intro a ha
  obtain ⟨x, hx, hkept⟩ := List.mem_filterMap.mp ha
  cases x with
  | deliver b =>
    rw [AgentStep.kept?] at hkept
    split at hkept
    · cases hkept
    · obtain rfl : b = a := Option.some.inj hkept
      exact h b hx
  | emit count => cases hkept
  | drain stop => cases hkept

/-- An agent that is drained in time loses nothing on the way to the device
table: its lines are all read as frames, and leave the session and its devices
as if every kept advertisement had been observed directly. Files and streams of
the capture run do not matter. -/
theorem captured_of_agent_run (tag : String) (htag : Line.Workable tag.toList)
    (hline : '\n' ∉ tag.toList) (steps : List AgentStep)
    (hcoded : ∀ a, AgentStep.deliver a ∈ steps → a.Coded) (stop : DrainStop)
    {g : Agent} {w : Line.Writer}
    (hrun : Agent.run Line.Writer.emit ({}, { tag }) (steps ++ [.drain stop]) = (g, w))
    (hroom : g.buffer.overflowed = 0) (reads : List (List UInt8))
    (hreads : reads.flatten = w.out.bytes) (ending : LineReader.Ending)
    (clock : Nat → Timestamp) (start : Timestamp) (r : RunState) :
    g.buffer.buffered = 0 ∧
    (∀ line ∈ LineReader.lines reads ending, ∃ f, Line.decode? tag line = some (.ok f)) ∧
    Captured clock (steps.filterMap AgentStep.kept?)
      (RunState.handleLines tag clock 0 { r with session := { start } }
        (LineReader.lines reads ending)).session := by
  obtain ⟨hempty, hbytes⟩ := delivered_drain hrun hroom
  have hlines := lines_of_transmitted hline (hreads.trans hbytes) ending
  have hcaptured := (captured_start clock start).run htag _ (coded_of_kept hcoded)
  refine ⟨?_, ?_, ?_⟩
  · rw [← LossyQueue.length_toList, hempty, List.length_nil]
  · intro line hmem
    rw [hlines] at hmem
    obtain ⟨a, -, rfl⟩ := List.mem_map.mp hmem
    exact ⟨_, Line.decode?_encode htag a⟩
  · rw [RunState.session_handleLines, hlines]
    exact hcaptured

/-- A beacon that is drained while a scan response without payload arrives, and
whose line is read in two parts. -/
theorem captured_of_beacon_run :
    let beacon := Advertisement.ofPayload ⟨0xC0, 1, 2, 3, 4, 5⟩ (-60) 0 17 (AdvType.ofCode 3)
      .random [0x02, 0x01, 0x06]
    let response := Advertisement.ofPayload ⟨0xC0, 1, 2, 3, 4, 5⟩ (-61) 38 18 (AdvType.ofCode 4)
      .random []
    let s := Agent.run Line.Writer.emit ({}, { tag := Line.defaultTag })
      ([.deliver beacon, .emit 1, .deliver response] ++ [.drain .onceEmpty])
    s.1.buffer.overflowed = 0 ∧
    Captured (fun i => ⟨i⟩) [beacon]
      (RunState.handleLines Line.defaultTag (fun i => ⟨i⟩) 0
        { files := {}, session := { start := ⟨0⟩ } }
        (LineReader.lines [s.2.out.bytes.take 7, s.2.out.bytes.drop 7] .endOfInput)).session := by
  intro beacon response s
  have htag : Line.Workable Line.defaultTag.toList := by decide
  have hline : '\n' ∉ Line.defaultTag.toList := by decide
  have hcoded : ∀ a, AgentStep.deliver a ∈ [.deliver beacon, .emit 1, .deliver response] →
      a.Coded := by
    intro a ha
    simp only [List.mem_cons, AgentStep.deliver.injEq, reduceCtorEq, List.not_mem_nil,
      or_false, false_or] at ha
    rcases ha with rfl | rfl
    · exact ⟨3, rfl⟩
    · exact ⟨4, rfl⟩
  have hroom : s.1.buffer.overflowed = 0 := rfl
  have hreads : [s.2.out.bytes.take 7, s.2.out.bytes.drop 7].flatten = s.2.out.bytes := by
    simp
  exact ⟨hroom, (captured_of_agent_run Line.defaultTag htag hline _ hcoded .onceEmpty rfl hroom _
    hreads .endOfInput (fun i => ⟨i⟩) ⟨0⟩ { files := {}, session := { start := ⟨0⟩ } }).2.2⟩

end BleCapture
