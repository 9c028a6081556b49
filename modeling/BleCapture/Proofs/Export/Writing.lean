import BleCapture.Proofs.FileSystem
import BleCapture.Proofs.Sink
import BleCapture.Proofs.Text.Utf8
import BleCapture.Proofs.Time.Calendar
import BleCapture.Run.Capture

/-!
# Exports are complete or report an error

A document is written piece by piece, and file output holds pieces back in a
buffer. Either way the sink receives the bytes of the document in order. If there
is room for all of them the export succeeds, and otherwise it gives the error of
the sink: no export is cut off silently. After an export to a file that succeeded
the whole document is read from that file.
-/

namespace BleCapture

namespace Document

/-- Holding bytes back changes neither the bytes nor their order. -/
theorem bytes_buffered (held : List UInt8) (d : Document) :
    (buffered held d).bytes = held ++ d.bytes := by
  induction d generalizing held with
  | nil => simp [buffered, bytes]
  | cons p rest ih =>
    have hcons : ∀ (q : Piece) (d : Document), bytes (q :: d) = q.bytes ++ bytes d :=
      fun _ _ => List.flatMap_cons
    simp only [buffered]
    split
    · rw [ih, hcons, List.append_assoc]
    · split
      · rw [hcons, ih, hcons]
      · rw [hcons, hcons, ih, hcons, List.nil_append]

theorem writeTo_of_unlimited {s : Sink} (h : s.limit = none) (d : Document) :
    (d.writeTo s).2 = none ∧ (d.writeTo s).1.bytes = s.bytes ++ d.bytes := by
  induction d generalizing s with
  | nil => exact ⟨rfl, (List.append_nil _).symm⟩
  | cons p rest ih =>
    obtain ⟨hnone, hbytes⟩ := ih (s := s.append p.bytes) h
    simp only [writeTo, Sink.write_of_unlimited h]
    refine ⟨hnone, ?_⟩
    rw [hbytes, Sink.bytes_append, List.append_assoc]
    rfl

/-- A document that is the encoding of a text is written whole, and what is written
is decoded to that text. -/
theorem writeTo_of_text {d : Document} {text : List Char} (h : d.bytes = Text.Utf8.encode text) :
    (d.writeTo {}).2 = none ∧ (d.writeTo {}).1.bytes = Text.Utf8.encode text ∧
      Text.Utf8.decode (d.writeTo {}).1.bytes = text := by
  obtain ⟨hnone, hwritten⟩ := writeTo_of_unlimited (s := {}) rfl d
  have hbytes : (d.writeTo {}).1.bytes = Text.Utf8.encode text :=
    hwritten.trans ((List.nil_append _).trans h)
  exact ⟨hnone, hbytes, by rw [hbytes, Text.Utf8.decode_encode]⟩

section
variable {room : Nat} {e : IoError} {offered : List UInt8} {s : Sink}

theorem writeTo_of_le (h : s.Holds room e offered) (d : Document)
    (hfits : offered.length + d.bytes.length ≤ room) :
    (d.writeTo s).2 = none ∧ (d.writeTo s).1.Holds room e (offered ++ d.bytes) := by
  induction d generalizing offered s with
  | nil => exact ⟨rfl, by simpa [bytes, writeTo] using h⟩
  | cons p rest ih =>
    have hbytes : bytes (p :: rest) = p.bytes ++ bytes rest := List.flatMap_cons
    rw [hbytes, List.length_append] at hfits
    obtain ⟨hnone, hholds⟩ := h.write_of_le p.bytes (by omega)
    have hwrite : s.write p.bytes = ((s.write p.bytes).1, none) := Prod.ext rfl hnone
    have hrest := ih hholds (by rw [List.length_append]; omega)
    rw [hbytes, ← List.append_assoc, writeTo, hwrite]
    exact hrest

/-- The first piece that does not fit fills the sink and ends the writing. -/
theorem writeTo_of_lt (h : s.Holds room e offered) (hroom : offered.length ≤ room) {d : Document}
    (hcut : room < offered.length + d.bytes.length) :
    (∃ layer, (d.writeTo s).2 = some ⟨layer, e⟩) ∧
      (d.writeTo s).1.Holds room e (offered ++ d.bytes) := by
  induction d generalizing offered s with
  | nil =>
    simp only [bytes, List.flatMap_nil, List.length_nil] at hcut
    omega
  | cons p rest ih =>
    have hbytes : bytes (p :: rest) = p.bytes ++ bytes rest := List.flatMap_cons
    rw [hbytes, List.length_append] at hcut
    rw [hbytes, ← List.append_assoc, writeTo]
    rcases Nat.lt_or_ge room (offered.length + p.bytes.length) with hlt | hle
    · have hne : p.bytes ≠ [] := by
        rintro hnil
        rw [hnil, List.length_nil] at hlt
        omega
      obtain ⟨hsome, hholds⟩ := h.write_of_lt hne hlt
      have hwrite : s.write p.bytes = ((s.write p.bytes).1, some e) := Prod.ext rfl hsome
      have hfull : room ≤ (offered ++ p.bytes).length := by
        rw [List.length_append]
        omega
      rw [hwrite]
      exact ⟨⟨p.layer, rfl⟩, hholds.of_full hfull _⟩
    · obtain ⟨hnone, hholds⟩ := h.write_of_le p.bytes hle
      have hwrite : s.write p.bytes = ((s.write p.bytes).1, none) := Prod.ext rfl hnone
      rw [hwrite]
      exact ih hholds (by simpa using hle) (by rw [List.length_append]; omega)

end

/-- What becomes of a document in an empty sink with room for `room` bytes. -/
structure CompleteOrReported (room : Nat) (e : IoError) (whole : List UInt8)
    (written : Sink × Option ExportError) : Prop where
  succeeds_iff : written.2 = none ↔ whole.length ≤ room
  complete : written.2 = none → written.1.bytes = whole
  reported : written.2 ≠ none → ∃ layer, written.2 = some ⟨layer, e⟩
  front : written.1.bytes = whole.take room

theorem completeOrReported_writeTo {room : Nat} {e : IoError} {s : Sink}
    (hempty : s.Holds room e []) (d : Document) :
    CompleteOrReported room e d.bytes (d.writeTo s) := by
  rcases Nat.lt_or_ge room d.bytes.length with hcut | hfits
  · obtain ⟨⟨layer, hsome⟩, hholds⟩ :=
      writeTo_of_lt hempty (Nat.zero_le _) (by simpa using hcut)
    have hne := Option.some_ne_none (⟨layer, e⟩ : ExportError)
    refine ⟨⟨fun hnone => ?_, fun hle => ?_⟩, fun hnone => ?_, fun _ => ⟨layer, hsome⟩,
      hholds.bytes⟩
    · exact absurd (hsome.symm.trans hnone) hne
    · omega
    · exact absurd (hsome.symm.trans hnone) hne
  · obtain ⟨hnone, hholds⟩ := writeTo_of_le hempty d (by simpa using hfits)
    refine ⟨⟨fun _ => hfits, fun _ => hnone⟩, fun _ => ?_, fun h => absurd hnone h, hholds.bytes⟩
    rw [hholds.bytes, List.nil_append, List.take_of_length_le hfits]

/-- What becomes of a document that is exported to the file under a path, which may
have room for so many bytes only. -/
structure FileCompleteOrReported (files : FileSystem) (path : String) (whole : List UInt8)
    (exported : FileSystem × Option ExportError) : Prop where
  not_created : ∀ e, files.create path = .error e → exported = (files, some ⟨.output, e⟩)
  succeeds_iff : ∀ opened sink, files.create path = .ok (opened, sink) → sink.bytes = [] →
    (exported.2 = none ↔ ∀ room, sink.limit = some room → whole.length ≤ room)
  reported : ∀ opened sink, files.create path = .ok (opened, sink) → sink.bytes = [] →
    exported.2 ≠ none → ∃ layer, exported.2 = some ⟨layer, sink.failure⟩
  /-- A file that keeps bytes holds the front of the document, and all of it if the
  export succeeds. -/
  kept : ∀ opened sink location, files.create path = .ok (opened, sink) →
    files.LeadsTo path location → files.Keeps location →
      ∃ front, exported.1.openFile path = .ok front ∧ front <+: whole ∧
        (exported.2 = none → front = whole)

/-- What becomes of a document in a sink that holds nothing yet. -/
theorem writeTo_of_empty {s : Sink} (hempty : s.bytes = []) (d : Document) :
    ((d.writeTo s).2 = none ↔ ∀ room, s.limit = some room → d.bytes.length ≤ room) ∧
      ((d.writeTo s).2 ≠ none → ∃ layer, (d.writeTo s).2 = some ⟨layer, s.failure⟩) ∧
      (d.writeTo s).1.bytes <+: d.bytes ∧
      ((d.writeTo s).2 = none → (d.writeTo s).1.bytes = d.bytes) := by
  rcases hlimit : s.limit with _ | room
  · obtain ⟨hnone, hbytes⟩ := writeTo_of_unlimited hlimit d
    rw [hempty, List.nil_append] at hbytes
    exact ⟨⟨fun _ _ h => (nomatch h), fun _ => hnone⟩, fun h => absurd hnone h,
      hbytes ▸ List.prefix_rfl, fun _ => hbytes⟩
  · have h := completeOrReported_writeTo ⟨hlimit, rfl, by rw [hempty, List.take_nil]⟩ d
    refine ⟨h.succeeds_iff.trans ⟨fun hle r hr => ?_, fun hle => hle room rfl⟩, h.reported,
      h.front ▸ List.take_prefix _ _, h.complete⟩
    cases hr
    exact hle

end Document

-- ---------------------------------------------------------------------------
-- When an export is made
-- ---------------------------------------------------------------------------

namespace HtmlReport

/-- The text of a page: its lines, each with a newline. -/
def text (s : Session) (now : Timestamp) : List Char :=
  (page s now now.dateTime).flatMap (· ++ ['\n'])

theorem bytes_document (s : Session) (now : Timestamp) :
    (document s now).bytes = Text.Utf8.encode (text s now) := by
  rw [document, Document.bytes, List.flatMap_map, text, Text.Utf8.encode, List.flatMap_assoc]
  rfl

/-- Of a page for a finished session only the time in it depends on when it is
made. -/
theorem exists_text_eq {s : Session} {t : Timestamp} (h : s.finished = some t) :
    ∃ before after, ∀ now, text s now = before ++ now.dateTime.toList ++ after := by
  have hduration : ∀ now, s.duration now = s.duration t := by
    intro now
    rw [Session.duration, Session.duration, h]
    rfl
  have hcards : ∀ now, cards s now = cards s t := by
    intro now
    rw [cards, cards, Session.packetRate, Session.packetRate, hduration]
  obtain ⟨opened, pre, post, rest, hpage⟩ : ∃ (opened : List Line) (pre post : List Char)
      (rest : List Line), ∀ now generated,
      page s now generated = opened ++ (pre ++ generated.toList ++ post) :: rest := by
    refine ⟨opening.map String.toList, "    <p class=\"timestamp\">Generated: ".toList,
      "</p>".toList, "    <div class=\"stats-grid\">".toList :: (cards s t ++ "    </div>".toList ::
        (deviceTable s ++ typeTable s ++ ["</div>".toList, "</body>".toList, "</html>".toList])),
      fun now generated => ?_⟩
    rw [page, hcards]
    simp only [List.append_assoc, List.cons_append, List.nil_append]
  refine ⟨opened.flatMap (· ++ ['\n']) ++ pre, post ++ '\n' :: rest.flatMap (· ++ ['\n']), ?_⟩
  intro now
  rw [text, hpage, List.flatMap_append, List.flatMap_cons]
  simp only [List.append_assoc, List.cons_append, List.nil_append]

theorem length_bytes_document {s : Session} {t : Timestamp} (h : s.finished = some t)
    {now later : Timestamp} (hnow : now.FourDigitYear) (hlater : later.FourDigitYear) :
    (document s later).bytes.length = (document s now).bytes.length := by
  obtain ⟨before, after, htext⟩ := exists_text_eq h
  simp only [bytes_document, htext, Text.Utf8.encode_append, List.length_append,
    Timestamp.length_encode_dateTime hnow, Timestamp.length_encode_dateTime hlater]

end HtmlReport

/-- The export to a file, whatever is under the path. -/
theorem RunState.fileCompleteOrReported_writeReport (files : FileSystem) (s : Session)
    (now : Timestamp) (f : ExportFormat) (path : String) :
    Document.FileCompleteOrReported files path (f.document s now).bytes
      (writeReport files s now f path) := by
  have hbytes : (Document.buffered [] (f.document s now)).bytes = (f.document s now).bytes :=
    Document.bytes_buffered [] _
  rcases hcreate : files.create path with e | ⟨opened, sink⟩
  · have hexported : writeReport files s now f path = (files, some ⟨.output, e⟩) := by
      simp only [writeReport, hcreate]
    have hnot : ∀ opened, files.create path ≠ .ok opened := fun _ h => nomatch hcreate.symm.trans h
    refine ⟨fun _ h => ?_, fun _ _ h => absurd h (hnot _), fun _ _ h => absurd h (hnot _),
      fun _ _ _ h => absurd h (hnot _)⟩
    cases hcreate.symm.trans h
    exact hexported
  · have hsink : ∀ {opened' sink'}, files.create path = .ok (opened', sink') → sink = sink' :=
      fun h => congrArg Prod.snd (Except.ok.inj (hcreate.symm.trans h))
    have hwritten : sink.bytes = [] → _ := fun hempty =>
      Document.writeTo_of_empty hempty (Document.buffered [] (f.document s now))
    have hexported : writeReport files s now f path =
        let written := (Document.buffered [] (f.document s now)).writeTo sink
        (opened.update path written.1, written.2) := by
      simp only [writeReport, hcreate]
    rw [hbytes] at hwritten
    generalize (Document.buffered [] (f.document s now)).writeTo sink = written
      at hwritten hexported
    rw [hexported]
    refine ⟨fun _ h => (nomatch hcreate.symm.trans h), fun _ _ h hempty => ?_,
      fun _ _ h hempty => ?_, fun _ _ location _ hleads hkeeps => ?_⟩
    · obtain rfl := hsink h
      exact (hwritten hempty).1
    · obtain rfl := hsink h
      exact (hwritten hempty).2.1
    · have hsame := ((FileSystem.rewrites_create hcreate).trans
        (FileSystem.rewrites_update opened path written.1)).sameDirectories
      obtain ⟨hempty, hfile⟩ :=
        FileSystem.find?_update_of_create hcreate hleads hkeeps written.1
      exact ⟨_, (hleads.congr hsame).openFile_eq hfile, (hwritten hempty).2.2⟩

namespace ExportFormat

theorem length_bytes_document (f : ExportFormat) {s : Session} {t : Timestamp}
    (h : s.finished = some t) {now later : Timestamp} (hnow : now.FourDigitYear)
    (hlater : later.FourDigitYear) :
    (f.document s later).bytes.length = (f.document s now).bytes.length := by
  cases f with
  | json =>
    have hsame : JsonReport.document s later = JsonReport.document s now := by
      simp only [JsonReport.document, JsonReport.report, JsonReport.captureInfo,
        JsonReport.statistics, Session.packetRate, Session.duration, h, Option.getD_some]
    exact congrArg _ (congrArg Document.bytes hsame)
  | csv => rfl
  | html => exact HtmlReport.length_bytes_document h hnow hlater

/-- Exports are complete or report an error. Into a sink with room for `room`
bytes an export succeeds exactly if the whole document fits, as it is written to a
sink without a limit, and then the sink holds all of it; otherwise the error of the
sink is given. The same holds when it goes through a buffer, and so of the export to a
file, from which the document is read afterwards. For a finished session the room that
is needed does not depend on when the export is made: the time in a page takes 19
characters. -/
theorem document_complete_or_reported (f : ExportFormat) (s : Session) (now : Timestamp)
    (room : Nat) (e : IoError) :
    let target : Sink := { limit := some room, failure := e }
    let document := f.document s now
    let whole := (document.writeTo {}).1.bytes
    (document.writeTo {}).2 = none ∧
      Document.CompleteOrReported room e whole (document.writeTo target) ∧
      Document.CompleteOrReported room e whole ((Document.buffered [] document).writeTo target) ∧
      (∀ files path, Document.FileCompleteOrReported files path whole
        (RunState.writeReport files s now f path)) ∧
      ∀ later, s.finished.isSome → now.FourDigitYear → later.FourDigitYear →
        now.dateTime.toList.length = 19 ∧
          (((f.document s later).writeTo {}).1.bytes.length ≤ room ↔
            (document.writeTo target).2 = none) := by
  intro target document whole
  have hunlimited : ∀ d : Document, (d.writeTo {}).2 = none ∧ (d.writeTo {}).1.bytes = d.bytes :=
    fun d => Document.writeTo_of_unlimited rfl d
  have hwhole : whole = document.bytes := (hunlimited document).2
  have hempty : target.Holds room e [] := ⟨rfl, rfl, List.take_nil.symm⟩
  have hplain := Document.completeOrReported_writeTo hempty document
  have hbuffered := Document.completeOrReported_writeTo hempty (Document.buffered [] document)
  rw [Document.bytes_buffered, List.nil_append] at hbuffered
  rw [hwhole]
  refine ⟨(hunlimited document).1, hplain, hbuffered,
    fun files path => RunState.fileCompleteOrReported_writeReport files s now f path, ?_⟩
  intro later hfinished hnow hlater
  obtain ⟨t, ht⟩ := Option.isSome_iff_exists.mp hfinished
  refine ⟨Timestamp.length_dateTime hnow, ?_⟩
  rw [(hunlimited _).2, f.length_bytes_document ht hnow hlater]
  exact hplain.succeeds_iff.symm

/-- A page made a day later than the one that was measured, whose last byte does
not fit, neither into a sink nor into a file. -/
theorem document_complete_or_reported_html :
    let s : Session := { start := ⟨0⟩, finished := some ⟨0⟩ }
    let later : Timestamp := Timestamp.ofParts 86400 0
    let needed := ((html.document s later).writeTo {}).1.bytes.length
    let target : Sink := { limit := some (needed - 1), failure := IoError.writeZero }
    let files : FileSystem := { nodes := [(["page.html"], .file target)] }
    s.finished.isSome ∧ Timestamp.FourDigitYear ⟨0⟩ ∧ later.FourDigitYear ∧ 0 < needed ∧
      ((html.document s ⟨0⟩).writeTo target).2 ≠ none ∧
      (RunState.writeReport files s ⟨0⟩ html "page.html").2 ≠ none := by
  intro s later needed target files
  have hpage : (html.document s later).bytes ≠ [] := List.cons_ne_nil _ _
  have hpos : 0 < needed := by
    have hbytes := (Document.writeTo_of_unlimited (s := {}) rfl (html.document s later)).2
    refine List.length_pos_iff.mpr ?_
    rw [hbytes]
    exact List.append_ne_nil_of_right_ne_nil _ hpage
  obtain ⟨-, hplain, -, hfile, hroom⟩ :=
    document_complete_or_reported html s ⟨0⟩ (needed - 1) IoError.writeZero
  have hnow : Timestamp.FourDigitYear ⟨0⟩ := by decide
  have hlater : later.FourDigitYear := by decide
  have hcut : ((html.document s ⟨0⟩).writeTo target).2 ≠ none := by
    intro hnone
    have hle : needed ≤ needed - 1 := (hroom later rfl hnow hlater).2.mpr hnone
    omega
  have hcreate : files.create "page.html" = .ok (files, target) := rfl
  refine ⟨rfl, hnow, hlater, hpos, hcut, fun hnone => hcut (hplain.succeeds_iff.mpr ?_)⟩
  exact ((hfile files "page.html").succeeds_iff _ _ hcreate rfl).mp hnone _ rfl

end ExportFormat

end BleCapture
