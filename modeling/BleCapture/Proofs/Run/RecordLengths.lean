import BleCapture.Proofs.Line.RoundTrip
import BleCapture.Proofs.Run.CaptureFile

/-!
# Records within their header

The header of a capture file states the largest record that is to be expected.
Lines give frames of up to 65535 bytes of payload, and packets put a header of
their own in front. For ACL data that can be three bytes too many, and it is for
nothing else.
-/

namespace BleCapture

-- ---------------------------------------------------------------------------
-- Frames from lines
-- ---------------------------------------------------------------------------

/-- Lines state the length of a payload in two bytes. -/
theorem Line.length_payload_lt {tag line : String} {f : Frame}
    (h : decode? tag line = some (.ok f)) : f.payload.length < 65536 := by
  unfold decode? decodeChars? at h
  split at h
  · obtain ⟨before, rest, -, hfields⟩ := decodeChars_eq_ok_iff.mp (Option.some.inj h)
    obtain ⟨value, -, hlength⟩ := hfields.length
    exact hexNumber?_lt (by decide) hlength
  · cases h

theorem SessionStep.length_payload_lt {tag line : String} {time t : Timestamp} {f : Frame}
    (h : (SessionStep.line line time).frame? tag = some (f, t)) : f.payload.length < 65536 := by
  simp only [frame?] at h
  split at h
  · rename_i hdecode
    cases h
    exact Line.length_payload_lt hdecode
  · cases h

/-- Records of lines hold frames of lines. -/
theorem Session.Accounts.length_payload_lt {tag : String} {filter : PacketFilter}
    {clock : Nat → Timestamp} {n : Nat} {lines : List String} {records : List PacketRecord}
    {s : Session} (h : Accounts tag filter (RunState.lineSteps clock n lines) records s) :
    ∀ p ∈ records, p.frame.payload.length < 65536 := by
  intro p hp
  have hmem : (p.frame, p.time) ∈ records.map fun p => (p.frame, p.time) :=
    List.mem_map_of_mem hp
  rw [h.accepted, List.mem_filter, List.mem_filterMap] at hmem
  obtain ⟨⟨step, hstep, hframe⟩, -⟩ := hmem
  obtain ⟨⟨line, i⟩, -, rfl⟩ := List.mem_map.mp hstep
  exact SessionStep.length_payload_lt hframe

-- ---------------------------------------------------------------------------
-- Targets without a limit
-- ---------------------------------------------------------------------------

namespace RunState

/-- The capture file takes any number of bytes, and all of its writes succeeded. -/
structure Unlimited (s : RunState) : Prop where
  capture : ∃ c, s.capture = some c ∧ c.writer.sink.limit = none
  log : ¬ s.CaptureFailed

namespace Unlimited

variable {s : RunState}

theorem saveCapture (h : Unlimited s) (now : Timestamp) (packet : List UInt8) :
    Unlimited (s.saveCapture now packet) := by
  obtain ⟨⟨c, hcapture, hlimit⟩, hlog⟩ := h
  obtain ⟨hnone, -, hunlimited, -⟩ := Pcap.Writer.writePacket_of_unlimited hlimit now packet
  rw [RunState.saveCapture, hcapture]
  dsimp only
  split <;> rename_i writer hwrite
  · rw [hwrite] at hunlimited
    exact ⟨⟨_, rfl, hunlimited⟩, hlog⟩
  · rw [hwrite] at hnone
    cases hnone

theorem sendLive (h : Unlimited s) (now : Timestamp) (packet : List UInt8) :
    Unlimited (s.sendLive now packet) := by
  unfold RunState.sendLive
  split <;> exact ⟨h.capture, h.log⟩

theorem note (h : Unlimited s) {e : LogEvent} (he : isCaptureFailed e = false) :
    Unlimited (s.note e) := by
  refine ⟨h.capture, fun ⟨cause, hmem⟩ => ?_⟩
  obtain rfl | hold := List.mem_cons.mp hmem
  · cases he
  · exact h.log ⟨cause, hold⟩

theorem handleLine (h : Unlimited s) (tag line : String) (now : Timestamp) :
    Unlimited (handleLine tag s line now) := by
  obtain ⟨events, hevents, hline⟩ := handleLine_cases tag s line now
  have hnoted : ∀ session, Unlimited { s with session, log := events ++ s.log } := by
    refine fun session => ⟨h.capture, fun ⟨e, he⟩ => ?_⟩
    exact (List.mem_append.mp he).elim (hevents e) fun hold => h.log ⟨e, hold⟩
  obtain ⟨-, hline⟩ | ⟨p, -, -, hline⟩ := hline
  · rw [hline]
    exact hnoted _
  · rw [hline]
    exact ((hnoted _).saveCapture now p.raw).sendLive now p.raw

theorem follows {tag : String} {clock : Nat → Timestamp} {before : List String} {s' : RunState}
    (h : Unlimited s) (hfollows : Follows tag clock s before s') : Unlimited s' := by
  induction hfollows with
  | start => exact h
  | line line _ ih => exact ih.handleLine tag line _
  | status rate _ ih => exact ih.note rfl

end Unlimited

end RunState

-- ---------------------------------------------------------------------------
-- Records
-- ---------------------------------------------------------------------------

namespace Pcap

/-- What the header of a stream promises of every record. -/
structure Entry.Valid (snapLength : Nat) (e : Entry) : Prop where
  savedLength : e.savedLength = e.packet.length
  fullLength : e.fullLength = e.packet.length
  micros_lt : e.micros < 1000000
  within : e.savedLength ≤ snapLength

theorem ReadsAs.valid_iff {p : Timestamp × List UInt8} {e : Entry} (h : ReadsAs p e)
    (snapLength : Nat) : e.Valid snapLength ↔ p.2.length ≤ snapLength := by
  constructor
  · intro hvalid
    rw [← h.savedLength]
    exact hvalid.within
  · intro hle
    exact ⟨h.savedLength.trans (congrArg List.length h.packet.symm),
      h.fullLength.trans (congrArg List.length h.packet.symm), h.micros_lt, h.savedLength.trans_le hle⟩

end Pcap

/-- Payload that a packet cannot hold within the snap length. -/
def Frame.Oversized (f : Frame) : Prop := f.type = .aclData ∧ 65532 < f.payload.length

namespace Surroundings

variable {w : Surroundings} {o : Options} {path : String} {s : RunState}

/-- After any lines, as long as no write fails, each record of the capture file
states the length of its packet twice and right, and its time in whole
microseconds. It is within the snap length that the header states exactly if its
frame is not ACL data of more than 65532 bytes, and otherwise it is at most three
bytes longer. These are the records of all lines of the run, or of the lines up to
the place where the clock has no instant for the next status report. -/
theorem run_capture_valid_iff {lines : List String} (houtput : o.output = some path)
    (hkeeps : w.KeepsFile path) (hopened : w.openOutputs o = (s, none))
    (hsource : w.openSource o s.files = .ok lines)
    (hwritten : ∀ e, .captureFailed e ∉ (w.captured o s lines).log) :
    ∃ handled c entries, handled <+: lines ∧
      ((w.run o).result ≠ .error .clockOverflow → handled = lines) ∧
      (w.captured o s lines).capture = some c ∧
      c.writer.sink.bytes.take 24 = Pcap.globalHeader ∧
      (Pcap.readLe32? (Pcap.globalHeader.drop 16)).map Prod.fst = some 65535 ∧
      Pcap.read? c.writer.sink.bytes = some entries ∧
      List.Forall₂
        (fun p e => e.packet = p.raw ∧ e.Valid 65538 ∧ (e.Valid 65535 ↔ ¬ p.frame.Oversized))
        ((w.fresh o).session.run o.tag (RunState.lineSteps w.clock 0 handled)).2 entries ∧
      (w.Apart o path → (w.run o).files.openFile path = .ok c.writer.sink.bytes) := by
  obtain ⟨handled, hprefix, hend, -, hsaves⟩ := captured_handled hopened lines
  obtain ⟨c, hcapture, -, hbytes⟩ := hsaves path houtput hkeeps fun ⟨e, he⟩ => hwritten e he
  have hbooks := (Session.accounts_start o.tag w.start o.filter).run
    (RunState.lineSteps w.clock 0 handled)
  rw [List.nil_append, List.nil_append] at hbooks
  obtain ⟨entries, hread, hentries⟩ := read?_stream_saved
    ((w.fresh o).session.run o.tag (RunState.lineSteps w.clock 0 handled)).2
  refine ⟨handled, c, entries, hprefix, fun hresult => ?_, hcapture, ?_, rfl, by rw [hbytes, hread],
    ?_, fun hapart => openFile_run houtput hkeeps hapart hopened hsource hcapture⟩
  · rcases hfollowed : (w.followed o s lines).2 with _ | e
    · exact hend hfollowed
    · rw [run_of_followed_error hopened hsource hfollowed] at hresult
      exact absurd rfl hresult
  · rw [hbytes]
    rfl
  · have hall := (List.forall₂_and_left _ _).mpr ⟨hbooks.length_payload_lt, hentries⟩
    refine List.Forall₂.imp ?_ hall
    rintro p e ⟨hpayload, hreads⟩
    have hle := p.frame.length_toH4_le
    refine ⟨hreads.packet, (hreads.valid_iff 65538).mpr ?_, ?_⟩
    · dsimp only
      omega
    · exact (hreads.valid_iff 65535).trans p.frame.length_toH4_le_iff

theorem run_capture_valid_iff_short :
    let s := (shortCapture.openOutputs shortCaptureOptions).1
    ∃ c entries,
      (shortCapture.captured shortCaptureOptions s shortCapture.lines).capture = some c ∧
      Pcap.read? c.writer.sink.bytes = some entries ∧
      (shortCapture.run shortCaptureOptions).files.openFile "a.pcap" = .ok c.writer.sink.bytes := by
  intro s
  have hopened : shortCapture.openOutputs shortCaptureOptions = (s, none) :=
    Prod.ext rfl (by decide +kernel)
  have hwritten : ∀ e, .captureFailed e ∉
      (shortCapture.captured shortCaptureOptions s shortCapture.lines).log :=
    RunState.not_mem_of_any (by decide +kernel)
  obtain ⟨handled, c, entries, -, -, hcapture, -, -, hread, -, hfile⟩ :=
    run_capture_valid_iff rfl keepsFile_short hopened rfl hwritten
  exact ⟨c, entries, hcapture, hread, hfile apart_short⟩

end Surroundings

-- ---------------------------------------------------------------------------
-- A packet that is too long
-- ---------------------------------------------------------------------------

namespace Line

/-- A line of 65533 bytes of ACL data. -/
def longLine (payload : List UInt8) : String :=
  String.ofList
    (defaultTag.toList ++ ':' :: plainFields .aclData "0xFFFD".toList payload)

theorem decode?_longLine {payload : List UInt8} (h : payload.length = 65533) :
    decode? defaultTag (longLine payload) = some (.ok (Frame.ofPayload .aclData payload)) := by
  have htag : Workable defaultTag.toList := by decide
  have hdigits : Text.Numeral 16 (['F'] ++ ['F'] ++ ['F'] ++ ['D'])
      (((15 * 16 + 15) * 16 + 15) * 16 + 13) :=
    .more (.more (.more (.digit (by decide)) (by decide)) (by decide)) (by decide)
  have hlength : NumberText payload.length "0xFFFD".toList := by
    rw [h]
    exact ⟨['0', 'x'], by decide, _, hdigits, by decide⟩
  have hnumber : ∀ c ∈ "0xFFFD".toList, Text.IsGraphic c := by
    have hall : "0xFFFD".toList.all (fun c => decide (Text.IsGraphic c)) = true := by decide
    exact fun c hc => of_decide_eq_true (List.all_eq_true.mp hall c hc)
  have hmax : payload.length ≤ min PacketType.aclData.maxPayload 65535 := by
    rw [h]
    decide
  have hgraphic : ∀ c ∈ ':' :: plainFields .aclData "0xFFFD".toList payload, Text.IsGraphic c :=
    List.forall_mem_cons.mpr ⟨by decide, graphic_plainFields .aclData payload hnumber⟩
  rw [decode?, longLine, String.toList_ofList]
  refine decodeChars?_of_decodeChars ?_ ?_
  · rw [decodeChars_append_fields htag hgraphic]
    exact decodeFields_plainFields hlength hnumber hmax
  · rw [trim_append_fields htag hgraphic, List.getLast?_append, List.getLast?_cons,
      getLast?_plainFields]
    rfl

end Line

namespace Surroundings

theorem records_longLine {payload : List UInt8} (h : payload.length = 65533)
    (start : Timestamp) (clock : Nat → Timestamp) :
    ((({ start } : Session).run Line.defaultTag
        (RunState.lineSteps clock 0 [Line.longLine payload])).2) =
      [⟨clock 0, Frame.ofPayload .aclData payload, none⟩] := by
  have hreading : (Frame.ofPayload .aclData payload).reading = ⟨[], none⟩ := rfl
  have haccepts : ({ start } : Session).accepts ⟨[], none⟩ = true := rfl
  rw [RunState.lineSteps_cons, Session.run_cons]
  simp only [Session.step, Line.decode?_longLine h, Session.recordFrame_eq, hreading, haccepts,
    if_true]
  rfl

def longPayload : List UInt8 := List.replicate 65533 0

/-- A capture file for one line of ACL data. -/
def longCapture : Surroundings := { lines := [Line.longLine longPayload] }

def longCaptureOptions : Options := { output := some "a.pcap" }

theorem run_long_line_not_valid :
    let s := (longCapture.openOutputs longCaptureOptions).1
    (∀ e, .captureFailed e ∉ (longCapture.captured longCaptureOptions s longCapture.lines).log) ∧
    ∃ bytes entries, (longCapture.run longCaptureOptions).files.openFile "a.pcap" = .ok bytes ∧
      Pcap.read? bytes = some entries ∧ ¬ ∀ e ∈ entries, e.Valid 65535 := by
  intro s
  have hopened : longCapture.openOutputs longCaptureOptions = (s, none) :=
    Prod.ext rfl (by decide +kernel)
  have hkeeps : longCapture.KeepsFile "a.pcap" := by
    have hpath : longCapture.files.location? "a.pcap" = some ["a.pcap"] := by decide +kernel
    exact keepsFile_of_missing hpath rfl
  have hapart : longCapture.Apart longCaptureOptions "a.pcap" := by
    rintro other ⟨⟩
  have hstart : RunState.Unlimited s := by
    have hlimit : s.capture.map (fun c => c.writer.sink.limit) = some none := by decide +kernel
    refine ⟨Option.map_eq_some_iff.mp hlimit, fun ⟨e, he⟩ => ?_⟩
    exact RunState.not_mem_of_any (by decide +kernel) e he
  obtain ⟨_, -, hfollows, -⟩ :=
    longCapture.follows_captured longCaptureOptions s longCapture.lines
  have hunlimited : RunState.Unlimited
      (longCapture.captured longCaptureOptions s longCapture.lines) :=
    (hstart.note rfl).follows hfollows
  obtain ⟨handled, -, hend, -, hsaves⟩ := captured_handled hopened longCapture.lines
  obtain rfl := hend rfl
  obtain ⟨c, hcapture, -, hbytes⟩ := hsaves _ rfl hkeeps hunlimited.log
  obtain ⟨entries, hread, hentries⟩ := read?_stream_saved
    ((longCapture.fresh longCaptureOptions).session.run longCaptureOptions.tag
      (RunState.lineSteps longCapture.clock 0 longCapture.lines)).2
  refine ⟨fun e he => hunlimited.log ⟨e, he⟩, _, entries,
    openFile_run rfl hkeeps hapart hopened rfl hcapture, by rw [hbytes, hread], fun hvalid => ?_⟩
  have hlength : longPayload.length = 65533 := List.length_replicate
  have hrecords : ((longCapture.fresh longCaptureOptions).session.run longCaptureOptions.tag
      (RunState.lineSteps longCapture.clock 0 longCapture.lines)).2 =
      [⟨⟨0⟩, Frame.ofPayload .aclData longPayload, none⟩] := records_longLine hlength _ _
  rw [hrecords, List.forall₂_cons_left_iff] at hentries
  obtain ⟨e, rest, hreads, -, rfl⟩ := hentries
  have hle := (hreads.valid_iff 65535).mp (hvalid e List.mem_cons_self)
  have hlong : 65532 < (Frame.ofPayload .aclData longPayload).payload.length :=
    hlength.symm ▸ by decide
  exact (Frame.length_toH4_le_iff _).mp hle ⟨rfl, hlong⟩

end Surroundings

end BleCapture
