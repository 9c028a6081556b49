import BleCapture.LineReader
import BleCapture.Proofs.Text.Blank
import BleCapture.Proofs.Text.Utf8

/-!
# Lines of a stream

How a stream is cut into reads does not matter: the lines are those of the text
that the whole stream decodes to. Lines that were written one after the other, each
with its end, are the lines that are read.
-/

namespace BleCapture.LineReader

theorem feed_append (unfinished front back : List UInt8) :
    feed unfinished (front ++ back) =
      ((feed unfinished front).1 ++ (feed (feed unfinished front).2 back).1,
        (feed (feed unfinished front).2 back).2) := by
  induction front generalizing unfinished with
  | nil => rfl
  | cons b rest ih =>
    rw [List.cons_append, feed, feed]
    split
    · rw [ih]
      rfl
    · rw [ih]

/-- All reads give what one read of everything gives. -/
theorem feedAll_eq_feed (unfinished : List UInt8) (reads : List (List UInt8)) :
    feedAll unfinished reads = feed unfinished reads.flatten := by
  induction reads generalizing unfinished with
  | nil => rfl
  | cons read rest ih => rw [feedAll, List.flatten_cons, feed_append, ← ih]

/-- Bytes without a newline complete no line until one comes. -/
theorem feed_line {line : List UInt8} (h : 0x0A ∉ line) (unfinished rest : List UInt8) :
    feed unfinished (line ++ 0x0A :: rest) =
      (lineText (unfinished.reverse ++ line) :: (feed [] rest).1, (feed [] rest).2) := by
  induction line generalizing unfinished with
  | nil => simp [feed]
  | cons b more ih =>
    rw [List.mem_cons, not_or] at h
    obtain ⟨hb, hmore⟩ := h
    rw [List.cons_append, feed, if_neg (Ne.symm hb), ih hmore]
    simp

-- ---------------------------------------------------------------------------
-- Written lines
-- ---------------------------------------------------------------------------

/-- A line as it is written, with its end. -/
def written (line : List Char) : List UInt8 := Text.Utf8.encode (line ++ ['\n'])

/-- Text that a reader does not mistake for more than one line or for a line
with a carriage return before its end. -/
structure Unbroken (line : List Char) : Prop where
  newline : '\n' ∉ line
  carriageReturn : line.getLast? ≠ some '\r'

theorem lineText_encode {line : List Char} (h : Unbroken line) :
    lineText (Text.Utf8.encode line) = line := by
  rw [lineText, Text.Utf8.decode_encode]
  cases hlast : line.getLast? with
  | none =>
    rw [List.getLast?_eq_none_iff] at hlast
    rw [hlast]
    rfl
  | some c =>
    obtain ⟨front, rfl⟩ := List.getLast?_eq_some_iff.mp hlast
    have hreturn : c ≠ '\r' := by
      rintro rfl
      exact h.carriageReturn hlast
    have hnewline : c ≠ '\n' := by
      rintro rfl
      exact h.newline (by simp)
    simp [Text.dropEndWhile, hreturn, hnewline]

theorem feed_written {line : List Char} (h : Unbroken line) (rest : List UInt8) :
    feed [] (written line ++ rest) = (line :: (feed [] rest).1, (feed [] rest).2) := by
  have hsplit : written line ++ rest = Text.Utf8.encode line ++ 0x0A :: rest := by
    have hend : Text.Utf8.encode ['\n'] = [0x0A] := by decide
    rw [written, Text.Utf8.encode_append, hend, List.append_assoc, List.singleton_append]
  rw [hsplit, feed_line (Text.Utf8.newline_not_mem_encode h.newline), List.reverse_nil,
    List.nil_append, lineText_encode h]

theorem feed_flatMap_written {texts : List (List Char)} (h : ∀ line ∈ texts, Unbroken line) :
    feed [] (texts.flatMap written) = (texts, []) := by
  induction texts with
  | nil => rfl
  | cons line rest ih =>
    obtain ⟨hline, hrest⟩ := List.forall_mem_cons.mp h
    rw [List.flatMap_cons, feed_written hline, ih hrest]

/-- Reads of any sizes give back the lines that were written. -/
theorem linesOf_of_flatten {reads : List (List UInt8)} {texts : List (List Char)}
    (hreads : reads.flatten = texts.flatMap written) (h : ∀ line ∈ texts, Unbroken line)
    (ending : Ending) : linesOf reads ending = texts := by
  rw [linesOf, feedAll_eq_feed, hreads, feed_flatMap_written h]
  cases ending <;> exact List.append_nil texts

-- ---------------------------------------------------------------------------
-- The stream as a whole
-- ---------------------------------------------------------------------------

/-- The pieces of a text between its newlines. An empty piece at the end is none. -/
def pieces (text : List Char) : List (List Char) :=
  let all := text.splitOn '\n'
  if all.getLast? = some [] then all.dropLast else all

/-- The lines of a text: its pieces without the carriage returns at their ends. -/
def textLines (text : List Char) : List (List Char) :=
  (pieces text).map (Text.dropEndWhile (· = '\r'))

/-- What counts of a stream that ends in this way: an error loses what follows the
last newline. -/
def Ending.kept : Ending → List UInt8 → List UInt8
  | .endOfInput, stream => stream
  | .error, stream => Text.dropEndWhile (· ≠ 0x0A) stream

theorem pieces_append_newline {line : List Char} (h : '\n' ∉ line) (rest : List Char) :
    pieces (line ++ '\n' :: rest) = line :: pieces rest := by
  have hline : ∀ c ∈ line, (c == '\n') = false := by
    intro c hc
    exact beq_false_of_ne fun heq => h (heq ▸ hc)
  have hsplit : (line ++ '\n' :: rest).splitOn '\n' = line :: rest.splitOn '\n' :=
    List.splitOnP_append_cons_of_forall_mem hline '\n' rfl rest
  obtain ⟨piece, more, hmore⟩ : ∃ piece more, rest.splitOn '\n' = piece :: more :=
    List.exists_cons_of_ne_nil (List.splitOnP_ne_nil _ rest)
  rw [pieces, pieces, hsplit, hmore, List.getLast?_cons_cons, List.dropLast_cons_cons]
  split <;> rfl

theorem pieces_of_not_mem {line : List Char} (h : '\n' ∉ line) :
    pieces line = if line = [] then [] else [line] := by
  have hline : ∀ c ∈ line, (c == '\n') = false := by
    intro c hc
    exact beq_false_of_ne fun heq => h (heq ▸ hc)
  have hsplit : line.splitOn '\n' = [line] := List.splitOnP_eq_singleton hline
  rw [pieces, hsplit]
  simp

theorem lineText_eq {bytes : List UInt8} (h : 0x0A ∉ bytes) :
    lineText bytes = Text.dropEndWhile (· = '\r') (Text.Utf8.decode bytes) := by
  refine Text.dropEndWhile_congr fun c hc => ?_
  have hne : c ≠ '\n' := fun heq => Text.Utf8.newline_not_mem_decode h (heq ▸ hc)
  simp [hne]

theorem kept_append_newline (ending : Ending) (line rest : List UInt8) :
    ending.kept (line ++ 0x0A :: rest) = line ++ 0x0A :: ending.kept rest := by
  cases ending with
  | endOfInput => rfl
  | error => exact Text.dropEndWhile_append_cons line (by decide) rest

/-- Bytes without a newline are a last line, if the end of the input completes it. -/
theorem lastLine_eq_textLines {unfinished : List UInt8} (h : 0x0A ∉ unfinished) (ending : Ending) :
    lastLine unfinished ending = textLines (Text.Utf8.decode (ending.kept unfinished.reverse)) := by
  have hreverse : 0x0A ∉ unfinished.reverse := by simpa using h
  cases ending with
  | endOfInput =>
    change (if unfinished.isEmpty then [] else [lineText unfinished.reverse]) =
      textLines (Text.Utf8.decode unfinished.reverse)
    rw [textLines, pieces_of_not_mem (Text.Utf8.newline_not_mem_decode hreverse),
      lineText_eq hreverse]
    split
    · rename_i hempty
      rw [List.isEmpty_iff.mp hempty]
      rfl
    · rename_i hnonempty
      have htext : Text.Utf8.decode unfinished.reverse ≠ [] :=
        Text.Utf8.decodeFrom_ne_nil (.inr (by simpa using hnonempty))
      rw [if_neg htext, List.map_cons, List.map_nil]
  | error =>
    have hkept : Ending.kept .error unfinished.reverse = [] := by
      refine Text.dropEndWhile_of_forall fun b hb => decide_eq_true ?_
      exact fun heq => hreverse (heq ▸ hb)
    rw [hkept]
    rfl

/-- The induction is on the bytes still to come, with the unfinished line in front of
them as part of the stream. -/
theorem feed_eq_textLines {unfinished : List UInt8} (h : 0x0A ∉ unfinished) (stream : List UInt8)
    (ending : Ending) :
    (feed unfinished stream).1 ++ lastLine (feed unfinished stream).2 ending =
      textLines (Text.Utf8.decode (ending.kept (unfinished.reverse ++ stream))) := by
  induction stream generalizing unfinished with
  | nil =>
    rw [List.append_nil]
    exact lastLine_eq_textLines h ending
  | cons b rest ih =>
    rw [feed]
    split
    · rename_i hb
      rw [hb, kept_append_newline, Text.Utf8.decode_append_newline, textLines,
        pieces_append_newline (Text.Utf8.newline_not_mem_decode (by simpa using h)), List.map_cons,
        ← lineText_eq (by simpa using h)]
      exact congrArg (lineText unfinished.reverse :: ·) (ih List.not_mem_nil)
    · rename_i hb
      have hmore : 0x0A ∉ b :: unfinished := by
        rw [List.mem_cons, not_or]
        exact ⟨Ne.symm hb, h⟩
      rw [ih hmore, List.reverse_cons, List.append_assoc, List.singleton_append]

/-- The lines of a stream do not depend on how it arrives. They are the lines of the
text that it decodes to as a whole, or that its part up to the last newline decodes to
if an error ends it. -/
theorem lines_eq_textLines (reads : List (List UInt8)) (ending : Ending) :
    lines reads ending =
        (textLines (Text.Utf8.decode (ending.kept reads.flatten))).map String.ofList ∧
      ∀ other : List (List UInt8), other.flatten = reads.flatten →
        lines other ending = lines reads ending := by
  have hlines : ∀ reads, lines reads ending =
      (textLines (Text.Utf8.decode (ending.kept reads.flatten))).map String.ofList := by
    intro reads
    have hfeed := feed_eq_textLines List.not_mem_nil reads.flatten ending
    rw [lines, linesOf, feedAll_eq_feed]
    exact congrArg (List.map String.ofList) hfeed
  refine ⟨hlines reads, fun other hother => ?_⟩
  rw [hlines, hlines, hother]

/-- Two reads that part a character and a line end, and four that part them elsewhere;
the second line ends in a sequence that is cut short. -/
theorem lines_eq_textLines_parted :
    let reads : List (List UInt8) := [[0x61, 0xC3], [0xA9, 0x0D, 0x0A, 0xE2, 0x82, 0x0A, 0x62]]
    let other : List (List UInt8) := [[0x61], [0xC3, 0xA9, 0x0D], [0x0A, 0xE2], [0x82, 0x0A, 0x62]]
    other.flatten = reads.flatten ∧ lines other .endOfInput = lines reads .endOfInput ∧
      lines reads .endOfInput = ["aé", "\uFFFD", "b"] ∧ lines reads .error = ["aé", "\uFFFD"] := by
  intro reads other
  refine ⟨rfl, (lines_eq_textLines reads .endOfInput).2 other rfl, ?_, ?_⟩
  · rfl
  · rfl

end BleCapture.LineReader
