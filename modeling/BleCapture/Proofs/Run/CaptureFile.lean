import BleCapture.Proofs.Hci.Frame
import BleCapture.Proofs.Pcap.Writing
import BleCapture.Proofs.Run.Steps
import BleCapture.Proofs.Session.Accounting

/-!
# Capture files

Session and capture file are fed with the same frames at different places of the
run. They stay in step: unless a write fails, the file holds the packet of every
record of the session, in order and with its time.
-/

namespace BleCapture

open FileSystem (Rewrites SameDirectories)

/-- What the capture file is given of a record. -/
def PacketRecord.saved (p : PacketRecord) : Timestamp × List UInt8 := (p.time, p.raw)

namespace RunState

variable {s s' : RunState} {path : String} {location : List String}
  {packets : List (Timestamp × List UInt8)}

-- ---------------------------------------------------------------------------
-- Packets
-- ---------------------------------------------------------------------------

/-- A write to the capture file has failed. -/
def CaptureFailed (s : RunState) : Prop := ∃ e, LogEvent.captureFailed e ∈ s.log

def isCaptureFailed : LogEvent → Bool
  | .captureFailed _ => true
  | _ => false

theorem not_mem_of_any {log : List LogEvent} (h : log.any isCaptureFailed = false) (e : IoError) :
    .captureFailed e ∉ log := fun hmem => by
  rw [List.any_eq_false] at h
  exact h _ hmem rfl

theorem CaptureFailed.mono (h : s.CaptureFailed) (hlog : s.log <:+ s'.log) : s'.CaptureFailed :=
  h.imp fun _ hmem => hlog.subset hmem

/-- The capture file was given these packets, whole, and takes more. -/
def Saves (packets : List (Timestamp × List UInt8)) (s : RunState) : Prop :=
  ∃ c, s.capture = some c ∧ c.writer.packets = packets.length ∧
    c.writer.sink.bytes = Pcap.stream packets

theorem Saves.saveCapture (h : Saves packets s) (now : Timestamp) (packet : List UInt8) :
    Saves (packets ++ [(now, packet)]) (s.saveCapture now packet) ∨
      (s.saveCapture now packet).CaptureFailed := by
  obtain ⟨c, hcapture, hcount, hbytes⟩ := h
  rw [RunState.saveCapture, hcapture]
  dsimp only
  split
  · rename_i writer hwrite
    obtain ⟨hnext, hrecord⟩ := Pcap.Writer.writePacket_of_eq_none hwrite
    refine .inl ⟨_, rfl, ?_, ?_⟩
    · rw [hnext, hcount, List.length_append, List.length_singleton]
    · rw [hrecord, hbytes, Pcap.stream_concat]
  · exact .inr ⟨_, List.mem_cons_self⟩

theorem capture_sendLive (s : RunState) (now : Timestamp) (packet : List UInt8) :
    (s.sendLive now packet).capture = s.capture := by
  unfold sendLive
  split <;> rfl

/-- A line that gives the session a record gives the capture file its packet. -/
theorem Saves.handleLine (h : Saves packets s) (tag line : String) (now : Timestamp) :
    Saves (packets ++
        ((s.session.step tag (.line line now)).2.toList.map PacketRecord.saved))
      (handleLine tag s line now) ∨ (handleLine tag s line now).CaptureFailed := by
  obtain ⟨events, -, ⟨hnone, hline⟩ | ⟨p, hsome, htime, hline⟩⟩ :=
    handleLine_cases tag s line now
  · rw [hnone, hline, Option.toList_none, List.map_nil, List.append_nil]
    exact .inl h
  · rw [hsome, hline, Option.toList_some, List.map_singleton, PacketRecord.saved, htime]
    refine (Saves.saveCapture (s := { s with session := _, log := events ++ s.log }) h now p.raw).imp
      (fun hsaved => ?_) fun hfailed => hfailed.mono (Continues.sendLive _ now p.raw).log
    rwa [Saves, capture_sendLive]

theorem Saves.follows {tag : String} {clock : Nat → Timestamp} {before : List String}
    (h : Saves packets s) (hfollows : Follows tag clock s before s')
    (hwritten : ¬ s'.CaptureFailed) :
    Saves (packets ++
        (s.session.run tag (lineSteps clock 0 before)).2.map PacketRecord.saved) s' := by
  induction hfollows with
  | start => rwa [lineSteps, List.zipIdx_nil, List.map_nil, Session.run, List.map_nil, List.append_nil]
  | @line before s' line hbefore ih =>
    have hlog := (continues_handleLine tag s' line (clock before.length)).log
    have hsaves := ih fun hfailed => hwritten (hfailed.mono hlog)
    obtain hline | hfailed := hsaves.handleLine tag line (clock before.length)
    · rw [lineSteps_concat, Session.run_concat, List.map_append, ← List.append_assoc,
        ← hbefore.session_eq]
      exact hline
    · exact absurd hfailed hwritten
  | @status before s' rate _ ih =>
    exact ih fun hfailed => hwritten (hfailed.mono (List.suffix_cons _ _))

-- ---------------------------------------------------------------------------
-- The file
-- ---------------------------------------------------------------------------

/-- What was written to the capture file is what is found under its path. The other
paths, the one of the live pipe among them, lead elsewhere. -/
structure Shows (path : String) (location : List String) (others : List String) (s : RunState) :
    Prop where
  leads : s.files.LeadsTo path location
  apart : ∀ other ∈ others, s.files.location? other ≠ some location
  live : ∀ pipe, s.livePath? = some pipe → pipe ∈ others
  file : ∀ c, s.capture = some c → c.path = path ∧
    s.files.find? location = some (.file c.writer.sink)

namespace Shows

variable {others : List String}

theorem of_eq (h : Shows path location others s) (hfiles : s'.files = s.files)
    (hlive : s'.livePath? = s.livePath?) (hcapture : s'.capture = s.capture) :
    Shows path location others s' :=
  ⟨hfiles ▸ h.leads, hfiles ▸ h.apart, hlive ▸ h.live, hfiles ▸ hcapture ▸ h.file⟩

theorem note (h : Shows path location others s) (e : LogEvent) :
    Shows path location others (s.note e) :=
  h.of_eq rfl rfl rfl

/-- Paths lead to the same places while frames come in. -/
theorem of_continues (h : Shows path location others s) (hcontinues : Continues s s')
    (hfile : ∀ c, s'.capture = some c → c.path = path ∧
      s'.files.find? location = some (.file c.writer.sink)) :
    Shows path location others s' := by
  have hsame := hcontinues.files.sameDirectories
  refine ⟨h.leads.congr hsame, fun other hother => ?_, hcontinues.live ▸ h.live, hfile⟩
  rw [hsame.location?_eq]
  exact h.apart other hother

theorem saveCapture (h : Shows path location others s) (now : Timestamp) (packet : List UInt8) :
    Shows path location others (s.saveCapture now packet) := by
  refine h.of_continues (.saveCapture s now packet) fun c hc => ?_
  unfold RunState.saveCapture at hc ⊢
  split at hc
  · rename_i hnone
    rw [hnone] at hc
    cases hc
  · rename_i old hold
    obtain ⟨rfl, hfile⟩ := h.file old hold
    split at hc <;> cases hc
    exact ⟨rfl, FileSystem.find?_update_of_file h.leads.location?_eq hfile _⟩

theorem sendLive (h : Shows path location others s) (now : Timestamp) (packet : List UInt8) :
    Shows path location others (s.sendLive now packet) := by
  have hfiles : (s.sendLive now packet).files = s.files := by
    unfold RunState.sendLive
    split <;> rfl
  exact h.of_eq hfiles (Continues.sendLive s now packet).live (capture_sendLive s now packet)

theorem handleLine (h : Shows path location others s) (tag line : String) (now : Timestamp) :
    Shows path location others (handleLine tag s line now) := by
  obtain ⟨events, -, ⟨-, hline⟩ | ⟨p, -, -, hline⟩⟩ := handleLine_cases tag s line now
  · rw [hline]
    exact h.of_eq rfl rfl rfl
  · rw [hline]
    refine Shows.sendLive (Shows.saveCapture ?_ now p.raw) now p.raw
    exact h.of_eq rfl rfl rfl

theorem follows {tag : String} {clock : Nat → Timestamp} {before : List String}
    (h : Shows path location others s) (hfollows : Follows tag clock s before s') :
    Shows path location others s' := by
  induction hfollows with
  | start => exact h
  | line line _ ih => exact ih.handleLine tag line _
  | status rate _ ih => exact ih.note _

theorem summarize (h : Shows path location others s) (now : Timestamp) :
    Shows path location others (s.summarize now) := by
  unfold RunState.summarize
  dsimp only
  split <;> exact h.of_eq rfl rfl rfl

/-- Closing removes the live pipe, which is elsewhere. -/
theorem closeLive (h : Shows path location others s) : Shows path location others s.closeLive := by
  obtain ⟨-, hclose⟩ | ⟨l, files, events, hlive, hremove, hclose⟩ := closeLive_cases s
  · rwa [hclose]
  have hpath : s.livePath? = some l.path := by rw [livePath?, hlive, Option.map_some]
  rw [hclose]
  obtain ⟨-, hremove⟩ | ⟨rfl, -⟩ := hremove
  · obtain ⟨pipe, hleads, hdirectory, rfl⟩ := FileSystem.remove_cases hremove
    have hne := FileSystem.ne_nil_of_find? hdirectory
    have hsame : SameDirectories s.files (s.files.erase pipe) :=
      .of_entry rfl hdirectory (by simp) (FileSystem.find?_erase hne)
    have hother : location ≠ pipe := by
      rintro rfl
      exact h.apart l.path (h.live l.path hpath) hleads.location?_eq
    refine ⟨h.leads.congr hsame, fun other hmem => ?_, ?_, fun c hc => ?_⟩
    · dsimp only
      rw [hsame.location?_eq]
      exact h.apart other hmem
    · rintro _ ⟨⟩
      exact h.live l.path hpath
    · obtain ⟨hcapture, hfile⟩ := h.file c hc
      exact ⟨hcapture, by rw [FileSystem.find?_erase hne, if_neg hother, hfile]⟩
  · exact h.of_eq rfl hpath.symm rfl

/-- Reports are written to other files. -/
theorem openFile_writeReports (h : Shows path location others s) {c : CaptureFile}
    (hc : s.capture = some c) (now : Timestamp) {exports : List (ExportFormat × String)}
    (hexports : exports.map Prod.snd ⊆ others) :
    (s.writeReports now exports).1.files.openFile path = .ok c.writer.sink.bytes := by
  have hreported := reported_writeReports now s exports
  refine (h.leads.congr hreported.files.sameDirectories).openFile_eq ?_
  rw [hreported.files.find?_of_ne fun other hmem => h.apart other (hexports hmem)]
  exact (h.file c hc).2

end Shows

-- ---------------------------------------------------------------------------
-- Opening
-- ---------------------------------------------------------------------------

/-- A new capture file holds the header, unless what is at its path keeps nothing. -/
theorem openCapture_of_eq_none (h : s.openCapture path = (s', none)) :
    ∃ location c, s.files.LeadsTo path location ∧ s'.capture = some c ∧ c.path = path ∧
      c.writer.packets = 0 ∧ (s.files.Keeps location →
        c.writer.sink.bytes = Pcap.globalHeader ∧
          s'.files.find? location = some (.file c.writer.sink)) := by
  unfold openCapture at h
  split at h
  · cases h
  rename_i files sink hcreate
  split at h
  · rename_i writer hwriter
    cases h
    obtain ⟨hcount, hbytes⟩ := Pcap.Writer.create_of_eq_ok hwriter
    obtain ⟨location, hleads, -⟩ := FileSystem.create_cases hcreate
    refine ⟨location, _, hleads, rfl, rfl, hcount, fun hkeeps => ?_⟩
    obtain ⟨hempty, hfile⟩ := FileSystem.find?_update_of_create hcreate hleads hkeeps writer.sink
    exact ⟨by rw [hbytes, hempty, List.nil_append], hfile⟩
  · cases h

end RunState

/-- The paths that a run is given besides that of its capture file. -/
def Options.otherPaths (o : Options) : List String :=
  o.input.toList ++ o.fifo.toList ++ o.exports.map Prod.snd

namespace Surroundings

open RunState (Saves Shows CaptureFailed)

variable {w : Surroundings} {o : Options} {path : String} {s : RunState}

/-- A regular file is at the end of the path, or can be created there. -/
def KeepsFile (w : Surroundings) (path : String) : Prop :=
  ∀ location, w.files.location? path = some location → w.files.Keeps location

theorem keepsFile_of_missing {location : List String}
    (hpath : w.files.location? path = some location)
    (hmissing : (w.files.find? location).isNone = true) : w.KeepsFile path := by
  intro other hother
  rw [hpath] at hother
  cases hother
  exact .inl (Option.isNone_iff_eq_none.mp hmissing)

/-- No other path that is given leads to the capture file. -/
def Apart (w : Surroundings) (o : Options) (path : String) : Prop :=
  ∀ other ∈ o.otherPaths, w.files.location? other ≠ w.files.location? path

theorem openOutput_eq_none (houtput : o.output = some path)
    (h : w.openOutput o = (s, none)) : (w.fresh o).openCapture path = (s, none) := by
  simp only [openOutput, houtput] at h
  rcases hcapture : (w.fresh o).openCapture path with ⟨s', _ | e⟩ <;> rw [hcapture] at h <;> cases h
  rfl

theorem saves_openOutput (houtput : o.output = some path) (hkeeps : w.KeepsFile path)
    (h : w.openOutput o = (s, none)) : Saves [] s := by
  obtain ⟨location, c, hleads, hcapture, -, hcount, hkept⟩ :=
    RunState.openCapture_of_eq_none (openOutput_eq_none houtput h)
  obtain ⟨hbytes, -⟩ := hkept (hkeeps location hleads.location?_eq)
  exact ⟨c, hcapture, hcount, by rw [hbytes, Pcap.stream, List.flatMap_nil, List.append_nil]⟩

theorem saves_openOutputs (houtput : o.output = some path) (hkeeps : w.KeepsFile path)
    (hopened : w.openOutputs o = (s, none)) : Saves [] s := by
  obtain ⟨hcapture, -⟩ | ⟨before, fifo, files, hcapture, -, -, rfl⟩ :=
    openOutputs_eq_none hopened
  · exact saves_openOutput houtput hkeeps hcapture
  · have hsaves := saves_openOutput houtput hkeeps hcapture
    exact hsaves

theorem sameDirectories_openOutput (h : w.openOutput o = (s, none)) :
    SameDirectories w.files s.files := by
  have hrewrites := rewrites_openOutput w o
  rw [h] at hrewrites
  exact hrewrites.sameDirectories

theorem shows_openOutput (houtput : o.output = some path) (hkeeps : w.KeepsFile path)
    (hapart : w.Apart o path) (h : w.openOutput o = (s, none)) :
    ∃ location, Shows path location o.otherPaths s := by
  have hlive : s.live = none := by
    rw [← live_openOutput w o, h]
  have hsame := sameDirectories_openOutput h
  obtain ⟨location, c, hleads, hcapture, hpath, -, hkept⟩ :=
    RunState.openCapture_of_eq_none (openOutput_eq_none houtput h)
  obtain ⟨-, hfile⟩ := hkept (hkeeps location hleads.location?_eq)
  refine ⟨location, hleads.congr hsame, fun other hother => ?_, ?_, ?_⟩
  · have hpathLocation : w.files.location? path = some location := hleads.location?_eq
    rw [hsame.location?_eq, ← hpathLocation]
    exact hapart other hother
  · simp [RunState.livePath?, hlive]
  · rw [hcapture]
    rintro _ ⟨⟩
    exact ⟨hpath, hfile⟩

/-- The live pipe is made elsewhere. -/
theorem shows_openOutputs (houtput : o.output = some path) (hkeeps : w.KeepsFile path)
    (hapart : w.Apart o path) (hopened : w.openOutputs o = (s, none)) :
    ∃ location, Shows path location o.otherPaths s := by
  obtain ⟨hcapture, -⟩ | ⟨before, fifo, files, hcapture, hfifo, hpipe, rfl⟩ :=
    openOutputs_eq_none hopened
  · exact shows_openOutput houtput hkeeps hapart hcapture
  · obtain ⟨location, hshows⟩ := shows_openOutput houtput hkeeps hapart hcapture
    obtain ⟨pipe, hto, hdirectory, hstart, hfind⟩ := FileSystem.makePipe_cases hpipe
    have hsame : SameDirectories before.files files := .of_entry hstart hdirectory (by simp) hfind
    have hmem : fifo ∈ o.otherPaths := by simp [Options.otherPaths, hfifo]
    have hother : location ≠ pipe := by
      rintro rfl
      exact hshows.apart fifo hmem hto.location?_eq
    refine ⟨location, hshows.leads.congr hsame, fun other hother => ?_, ?_, fun c hc => ?_⟩
    · dsimp only
      rw [hsame.location?_eq]
      exact hshows.apart other hother
    · rintro _ ⟨⟩
      exact hmem
    · obtain ⟨hpath, hfile⟩ := hshows.file c hc
      exact ⟨hpath, by rw [hfind, if_neg hother, hfile]⟩

/-- Summary, closing and reports leave the file as it was after the last line. -/
theorem openFile_run {lines : List String} (houtput : o.output = some path)
    (hkeeps : w.KeepsFile path) (hapart : w.Apart o path) (hopened : w.openOutputs o = (s, none))
    (hsource : w.openSource o s.files = .ok lines) {c : CaptureFile}
    (hc : (w.captured o s lines).capture = some c) :
    (w.run o).files.openFile path = .ok c.writer.sink.bytes := by
  obtain ⟨location, hshows⟩ := shows_openOutputs houtput hkeeps hapart hopened
  obtain ⟨handled, -, hfollows, -⟩ := w.follows_captured o s lines
  have hcaptured : Shows path location o.otherPaths (w.captured o s lines) :=
    (hshows.note _).follows hfollows
  rcases hfollowed : (w.followed o s lines).2 with _ | e
  · have hclosed : Shows path location o.otherPaths (w.closed o s lines) :=
      ((hcaptured.note _).summarize w.finish).closeLive
    have hc' : (w.closed o s lines).capture = some c := by
      rw [capture_closed, hc]
    rw [run_of_followed hopened hsource hfollowed]
    exact hclosed.openFile_writeReports hc' w.finish (List.subset_append_right _ _)
  · rw [run_of_followed_error hopened hsource hfollowed]
    exact hcaptured.leads.openFile_eq (hcaptured.file c hc).2

/-- Session and capture file after the lines that were handled: every record of the
session has been saved. -/
theorem captured_handled (hopened : w.openOutputs o = (s, none)) (lines : List String) :
    ∃ handled, handled <+: lines ∧ ((w.followed o s lines).2 = none → handled = lines) ∧
      let fed := (w.fresh o).session.run o.tag (RunState.lineSteps w.clock 0 handled)
      (w.captured o s lines).session = fed.1 ∧
      ∀ path, o.output = some path → w.KeepsFile path → ¬ (w.captured o s lines).CaptureFailed →
        Saves (fed.2.map PacketRecord.saved) (w.captured o s lines) := by
  obtain ⟨handled, hprefix, hfollows, hend⟩ := w.follows_captured o s lines
  rw [← session_of_openOutputs hopened]
  refine ⟨handled, hprefix, hend, hfollows.session_eq, fun path houtput hkeeps hwritten => ?_⟩
  have hopen : Saves [] s := saves_openOutputs houtput hkeeps hopened
  have hstart : Saves [] (s.note (.capturing o.tag)) := hopen
  have hall := hstart.follows hfollows hwritten
  rwa [List.nil_append] at hall

theorem stream_saved (records : List PacketRecord) :
    Pcap.stream (records.map PacketRecord.saved) =
      Pcap.globalHeader ++ records.flatMap fun p => Pcap.record p.time p.frame.toH4 := by
  rw [Pcap.stream, List.flatMap_map]
  rfl

theorem length_stream_saved (records : List PacketRecord) :
    (Pcap.stream (records.map PacketRecord.saved)).length =
      24 + 16 * records.length + (records.map fun p => p.frame.toH4.length).sum := by
  rw [Pcap.length_stream, List.length_map, List.map_map]
  rfl

/-- Packets are short enough for a stream to state their length. -/
theorem read?_stream_saved (records : List PacketRecord) :
    ∃ entries, Pcap.read? (Pcap.stream (records.map PacketRecord.saved)) = some entries ∧
      List.Forall₂ (fun p => Pcap.ReadsAs (p.time, p.frame.toH4)) records entries := by
  have hlength : ∀ p ∈ records.map PacketRecord.saved, p.2.length < 2 ^ 32 := by
    rw [List.forall_mem_map]
    intro p _
    have hle := p.frame.length_toH4_le
    have hmax : p.frame.type.maxPayload ≤ 65537 := by cases p.frame.type <;> decide
    have hlt : p.frame.toH4.length < 2 ^ 32 := by omega
    exact hlt
  refine ⟨_, Pcap.read?_stream hlength, ?_⟩
  rw [List.map_map, List.forall₂_map_right_iff, List.forall₂_same]
  exact fun p _ => Pcap.readsAs_entry p.saved

/-- A run that gives its session and could write its capture file has the same
packets in both: the file is the header and one record for each frame that the
lines give and the filter accepts, in their order and with the times of the
session, and the log of the session is the end of that. That the path differs from
the others which the run is given is read by what is at its end: `Apart` says that
no other path leads there, and `KeepsFile` that a regular file is there or can be
made, so that there is something to read back. -/
theorem run_capture_agrees {session : Session} (houtput : o.output = some path)
    (hkeeps : w.KeepsFile path) (hapart : w.Apart o path)
    (hresult : (w.run o).result = .ok session)
    (hwritten : ∀ e, .captureFailed e ∉ (w.run o).log) :
    ∃ lines, w.openSource o (w.openOutputs o).1.files = .ok lines ∧
      let steps := RunState.lineSteps w.clock 0 lines
      let captured := (w.fresh o).session.run o.tag steps
      session = captured.1.finish w.finish ∧
      captured.2.map (fun p => (p.frame, p.time)) =
        (steps.filterMap (SessionStep.frame? o.tag)).filter
          (fun p => session.accepts p.1.reading) ∧
      session.packets = captured.2.length ∧
      session.log.toList = captured.2.rtake (min session.packets 10000) ∧
      ∃ bytes, (w.run o).files.openFile path = .ok bytes ∧
        bytes = Pcap.globalHeader ++
          (captured.2.flatMap fun p => Pcap.record p.time p.frame.toH4) ∧
        bytes.length = 24 + 16 * session.packets + session.bytes ∧
        ∃ entries, Pcap.read? bytes = some entries ∧ entries.length = session.packets ∧
          List.Forall₂ (fun p => Pcap.ReadsAs (p.time, p.frame.toH4)) captured.2 entries := by
  obtain ⟨s, lines, hopened, hsource, hfollowed, rfl⟩ := run_eq_ok hresult
  have hnotFailed : ¬ (w.captured o s lines).CaptureFailed := fun ⟨e, he⟩ =>
    hwritten e (mem_log_run hopened hsource he)
  obtain ⟨handled, -, hend, hsession, hsaves⟩ := captured_handled hopened lines
  obtain rfl : lines = handled := (hend hfollowed).symm
  obtain ⟨c, hcapture, -, hbytes⟩ := hsaves path houtput hkeeps hnotFailed
  have hfile := openFile_run houtput hkeeps hapart hopened hsource hcapture
  have hbooks := (Session.accounts_start o.tag w.start o.filter).run
    (RunState.lineSteps w.clock 0 lines)
  rw [List.nil_append, List.nil_append] at hbooks
  obtain ⟨entries, hread, hentries⟩ := read?_stream_saved
    ((w.fresh o).session.run o.tag (RunState.lineSteps w.clock 0 lines)).2
  rw [hopened, hsession]
  refine ⟨lines, hsource, rfl, ?_, hbooks.packets, hbooks.log, _, hfile, ?_, ?_, entries, ?_, ?_,
    hentries⟩
  · -- The end of the capture does not change the filter.
    exact hbooks.accepted
  · rw [hbytes, stream_saved]
  · rw [hbytes, length_stream_saved]
    exact congrArg₂ (fun n b => 24 + 16 * n + b) hbooks.packets.symm hbooks.bytes.symm
  · rw [hbytes, hread]
  · exact hentries.length_eq.symm.trans hbooks.packets.symm

/-- Console text, a frame, and a line that announces a byte too many. -/
def shortCapture : Surroundings where
  lines :=
    ["I (512) boot", "[btsnoop]:pkt_type=[0x04],len=[0x03],data=[0201ff]",
      "[btsnoop]:pkt_type=[0x04],len=[0x04],data=[0201ff]"]
  clock := fun i => ⟨1700000000 * 1000000000 + i⟩

def shortCaptureOptions : Options := { output := some "a.pcap", fifo := some "live" }

theorem keepsFile_short : shortCapture.KeepsFile "a.pcap" := by
  have hpath : shortCapture.files.location? "a.pcap" = some ["a.pcap"] := by decide +kernel
  exact keepsFile_of_missing hpath rfl

theorem apart_short : shortCapture.Apart shortCaptureOptions "a.pcap" := by
  have hall : ∀ other ∈ shortCaptureOptions.otherPaths,
      shortCapture.files.location? other ≠ shortCapture.files.location? "a.pcap" := by
    decide +kernel
  exact hall

theorem run_capture_agrees_short :
    (∀ e, .captureFailed e ∉ (shortCapture.run shortCaptureOptions).log) ∧
    ∃ session bytes, (shortCapture.run shortCaptureOptions).result = .ok session ∧
      (shortCapture.run shortCaptureOptions).files.openFile "a.pcap" = .ok bytes ∧
      bytes.length = 24 + 16 * session.packets + session.bytes := by
  have hwritten : ∀ e, .captureFailed e ∉ (shortCapture.run shortCaptureOptions).log :=
    RunState.not_mem_of_any (by decide +kernel)
  have hok : (shortCapture.run shortCaptureOptions).result.isOk = true := by decide +kernel
  refine ⟨hwritten, ?_⟩
  cases hresult : (shortCapture.run shortCaptureOptions).result with
  | error e =>
    rw [hresult] at hok
    cases hok
  | ok session =>
    obtain ⟨lines, -, -, -, -, -, bytes, hfile, -, hlength, -⟩ :=
      run_capture_agrees rfl keepsFile_short apart_short hresult hwritten
    exact ⟨session, bytes, rfl, hfile, hlength⟩

end Surroundings

end BleCapture
