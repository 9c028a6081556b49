import BleCapture.Proofs.Export.Escape
import BleCapture.Proofs.Export.Markup
import BleCapture.Proofs.Export.Writing

/-!
# The device table of a page

Texts from outside are escaped, and numbers and times have no brackets, so nothing
on a page is taken for a tag that is none. The first table that a reader finds on
the page lists the devices in report order.
-/

namespace BleCapture

open Markup

-- ---------------------------------------------------------------------------
-- Texts without brackets
-- ---------------------------------------------------------------------------

namespace Text

theorem plain_of_isDigit {s : List Char} (h : ∀ c ∈ s, c.isDigit) : Plain s := by
  intro c hc
  have hdigit := h c hc
  constructor <;> rintro rfl <;> exact absurd hdigit (by decide)

theorem plain_decimal (n : Nat) : Plain (decimal n) :=
  plain_of_isDigit fun _ hc => Nat.isDigit_of_mem_toDigits (by decide) (by decide) hc

theorem plain_padded_decimal (k n : Nat) : Plain (padded k (decimal n)) :=
  plain_of_isDigit fun _ hc => isDigit_of_mem_padded_decimal hc

theorem plain_signed (i : Int) : Plain (signed i) := by
  unfold signed
  split
  · exact (plain_decimal _).cons (by decide)
  · exact plain_decimal _

theorem plain_upperHex (width n : Nat) : Plain (upperHex width n) := by
  have hdigit : ∀ d < 16, (Hex.digit d).toUpper ≠ '<' ∧ (Hex.digit d).toUpper ≠ '>' := by decide
  intro c hc
  obtain ⟨d, hd, rfl⟩ := exists_digit_of_mem_upperHex hc
  exact hdigit d hd

end Text

theorem Address.plain_text (a : Address) : Plain a.text := by
  have hbyte : ∀ b : UInt8, Plain (Text.upperHex 2 b.toNat) :=
    fun b => Text.plain_upperHex 2 b.toNat
  have hcolon : ':' ≠ '<' ∧ ':' ≠ '>' := by decide
  have hend : Plain (Text.upperHex 2 a.b5.toNat ++ []) := by
    rw [List.append_nil]
    exact hbyte a.b5
  exact (hbyte a.b0).append <| .cons hcolon <| (hbyte a.b1).append <| .cons hcolon <|
    (hbyte a.b2).append <| .cons hcolon <| (hbyte a.b3).append <| .cons hcolon <|
    (hbyte a.b4).append <| .cons hcolon hend

namespace Timestamp

theorem plain_timeOfDay (t : Timestamp) : Plain t.timeOfDay.toList := by
  have hcolon : ':' ≠ '<' ∧ ':' ≠ '>' := by decide
  rw [toList_timeOfDay]
  exact ((Text.plain_padded_decimal 2 _).append (.cons hcolon (Text.plain_padded_decimal 2 _))).append
    (.cons hcolon (Text.plain_padded_decimal 2 _))

theorem plain_dateTime (t : Timestamp) : Plain t.dateTime.toList := by
  have hsign : Plain (if t.date.year < 0 then ['-'] else []) := by split <;> decide
  have hdash : '-' ≠ '<' ∧ '-' ≠ '>' := by decide
  rw [toList_dateTime]
  exact (((hsign.append (Text.plain_padded_decimal 4 _)).append
    (.cons hdash (Text.plain_padded_decimal 2 _))).append
      (.cons hdash (Text.plain_padded_decimal 2 _))).append
        (.cons (by decide) t.plain_timeOfDay)

end Timestamp

namespace Decimal

theorem plain_placed (places n : Nat) : Plain (placed places n) := by
  unfold placed
  split
  · exact Text.plain_decimal n
  · have hdigits := Text.plain_padded_decimal (places + 1) n
    exact Plain.append (fun c hc => hdigits c (List.mem_of_mem_take hc))
      (.cons (by decide) fun c hc => hdigits c (List.mem_of_mem_drop hc))

theorem plain_fixed (places : Nat) (x : Float) : Plain (fixed places x).toList := by
  unfold fixed
  split
  · rw [String.toList_ofList]
    refine Plain.append ?_ (plain_placed places _)
    split <;> decide
  · split
    · exact plain_literal rfl (by decide)
    · split <;> exact plain_literal rfl (by decide)

end Decimal

namespace HtmlReport

theorem plain_escape (s : List Char) : Plain (escape s) :=
  fun _ hc => ⟨(ne_markup_of_mem_escape hc).1, (ne_markup_of_mem_escape hc).2.1⟩

-- ---------------------------------------------------------------------------
-- Rows
-- ---------------------------------------------------------------------------

def rowIndent : List Char := List.replicate 8 ' '

/-- A cell that holds data, its tag with or without attributes. -/
def dataCell (attributes markup shown : List Char) (hattributes : Plain attributes)
    (h : Inline markup shown) : Cell where
  opening := 't' :: 'd' :: attributes
  closing := "/td".toList
  markup
  shown
  opening_inline := ⟨.cons (by decide) (.cons (by decide) hattributes),
    by simp [structural, tableTags, rowTags, cellEnds]⟩
  closing_mem := by decide
  inline := h

def headCell (title : String) (h : Plain title.toList) : Cell where
  opening := "th".toList
  closing := "/th".toList
  markup := title.toList
  shown := title.toList
  opening_inline := by decide
  closing_mem := by decide
  inline := inline_plain h

theorem plain_signalClass (mean : Float) : Plain (signalClass mean).toList := by
  unfold signalClass
  split
  · exact plain_literal rfl (by decide)
  · split <;> exact plain_literal rfl (by decide)

/-- The text in the name cell. A name that is known stands there escaped. -/
def nameText (d : Device) : List Char :=
  match d.name with
  | some name => escaped name
  | none => "Unknown".toList

theorem inline_deviceName (d : Device) : Inline (deviceName d) (nameText d) := by
  unfold deviceName nameText
  rcases d.name with _ | name
  · exact inline_literal rfl (by decide)
  · exact inline_plain (plain_escape _)

/-- The labels in a cell of badges, one after the other, and how many more there
are. -/
def badgesText (labels : List String) : List Char :=
  if labels.isEmpty then ['-']
  else
    (labels.take badgeLimit).flatMap escaped ++
      if badgeLimit < labels.length then '+' :: number (labels.length - badgeLimit) else []

theorem inline_badges (labels : List String) : Inline (badges labels) (badgesText labels) := by
  have hclose : Inline "</span>".toList [] := inline_literal rfl (by decide)
  have hservice : Inline "<span class=\"badge badge-service\">".toList [] :=
    inline_literal rfl (by decide)
  have hmore : Inline "<span class=\"badge\">+".toList ['+'] := inline_literal rfl (by decide)
  have hbadge : ∀ label : String, Inline ("<span class=\"badge badge-service\">".toList ++
      escaped label ++ "</span>".toList) (escaped label) := by
    intro label
    have h := (hservice.append (inline_plain (plain_escape label.toList))).append hclose
    rwa [List.append_nil] at h
  unfold badges badgesText
  split
  · exact inline_plain (by decide)
  · refine (inline_flatMap fun label _ => hbadge label).append ?_
    split
    · have h := (hmore.append (inline_plain (Text.plain_decimal (labels.length - badgeLimit)))).append
        hclose
      rwa [List.append_nil] at h
    · exact inline_plain plain_nil

theorem plain_powerText (d : Device) : Plain (powerText d) := by
  unfold powerText
  split
  · exact (Text.plain_signed _).append (by decide)
  · decide

/-- The cells of the row of a device. -/
def rowCells (d : Device) : List Cell :=
  [dataCell [] (tag "code".toList ++ d.address.text ++ tag "/code".toList) d.address.text (by decide)
      (inline_within (by decide) (by decide) (inline_plain d.address.plain_text)),
   dataCell [] (deviceName d) (nameText d) (by decide) (inline_deviceName d),
   dataCell " class=\"manufacturer\"".toList (escaped (d.vendor?.getD "Unknown"))
      (escaped (d.vendor?.getD "Unknown")) (by decide) (inline_plain (plain_escape _)),
   dataCell (" class=\"".toList ++ (signalClass d.signal.mean).toList ++ ['"'])
      ((Decimal.fixed 0 d.signal.mean).toList ++ " dBm".toList)
      ((Decimal.fixed 0 d.signal.mean).toList ++ " dBm".toList)
      ((Plain.append (by decide) (plain_signalClass _)).append (by decide))
      (inline_plain ((Decimal.plain_fixed 0 _).append (by decide))),
   dataCell [] (powerText d) (powerText d) (by decide) (inline_plain (plain_powerText d)),
   dataCell [] (badges d.serviceLabels) (badgesText d.serviceLabels) (by decide) (inline_badges _),
   dataCell [] (number d.packetCount) (number d.packetCount) (by decide)
      (inline_plain (Text.plain_decimal _)),
   dataCell " class=\"timestamp\"".toList d.lastSeen.timeOfDay.toList d.lastSeen.timeOfDay.toList
      (by decide) (inline_plain d.lastSeen.plain_timeOfDay)]

theorem deviceRow_eq (d : Device) : deviceRow d ++ ['\n'] = rowLine rowIndent (rowCells d) := by
  have hstart : "        <tr><td><code>".toList =
      rowIndent ++ (tag "tr".toList ++ (tag ['t', 'd'] ++ tag "code".toList)) := toList_literal rfl
  have hcode : "</code></td><td>".toList =
      tag "/code".toList ++ (tag "/td".toList ++ tag ['t', 'd']) := toList_literal rfl
  have hvendor : "</td><td class=\"manufacturer\">".toList =
      tag "/td".toList ++ tag ('t' :: 'd' :: " class=\"manufacturer\"".toList) := toList_literal rfl
  have hclass : "</td><td class=\"".toList =
      tag "/td".toList ++ '<' :: 't' :: 'd' :: " class=\"".toList := toList_literal rfl
  have hquote : "\">".toList = ['"', '>'] := toList_literal rfl
  have hunit : " dBm</td><td>".toList =
      " dBm".toList ++ (tag "/td".toList ++ tag ['t', 'd']) := toList_literal rfl
  have hnext : "</td><td>".toList = tag "/td".toList ++ tag ['t', 'd'] := toList_literal rfl
  have htime : "</td><td class=\"timestamp\">".toList =
      tag "/td".toList ++ tag ('t' :: 'd' :: " class=\"timestamp\"".toList) := toList_literal rfl
  have hend : "</td></tr>".toList = tag "/td".toList ++ tag "/tr".toList := toList_literal rfl
  unfold deviceRow
  rw [hstart, hcode, hvendor, hclass, hquote, hunit, hnext, htime, hend]
  simp only [rowLine, rowCells, dataCell, Cell.text, tag, List.flatMap_cons, List.flatMap_nil,
    List.append_assoc, List.cons_append, List.nil_append, List.append_nil]

/-- What the first row of the table says. -/
def titles : List String :=
  ["MAC Address", "Name", "Manufacturer", "RSSI", "TX Power", "Services", "Packets", "Last Seen"]

theorem plain_titles : ∀ title ∈ titles, Plain title.toList := by
  simp only [titles, List.forall_mem_cons]
  and_intros
  all_goals first | exact List.forall_mem_nil _ | exact plain_literal rfl (by decide)

def headCells : List Cell := titles.pmap headCell plain_titles

theorem headLine_eq :
    ("        <tr><th>MAC Address</th><th>Name</th><th>Manufacturer</th><th>RSSI</th>" ++
      "<th>TX Power</th><th>Services</th><th>Packets</th><th>Last Seen</th></tr>").toList ++ ['\n'] =
      rowLine rowIndent headCells := by
  let cell (title : String) := tag "th".toList ++ title.toList ++ tag "/th".toList
  have hleft : "        <tr><th>MAC Address</th><th>Name</th><th>Manufacturer</th><th>RSSI</th>".toList =
      rowIndent ++ tag "tr".toList ++ (cell "MAC Address" ++ (cell "Name" ++ (cell "Manufacturer" ++
        cell "RSSI"))) := toList_literal rfl
  have hright : "<th>TX Power</th><th>Services</th><th>Packets</th><th>Last Seen</th></tr>".toList =
      cell "TX Power" ++ (cell "Services" ++ (cell "Packets" ++ (cell "Last Seen" ++
        tag "/tr".toList))) := toList_literal rfl
  rw [String.toList_append, hleft, hright]
  simp only [rowLine, headCells, titles, List.pmap_cons, List.pmap_nil, headCell, Cell.text, cell,
    List.flatMap_cons, List.flatMap_nil, List.append_assoc, List.nil_append]

theorem label_headCells : headCells.map Cell.label = titles := by
  rw [headCells, List.map_pmap]
  simp only [Cell.label, headCell, String.ofList_toList, List.pmap_eq_map, List.map_id_fun', id]

/-- The texts in the row of a device. -/
def rowTexts (d : Device) : List String := (rowCells d).map Cell.label

-- ---------------------------------------------------------------------------
-- The lines around the table
-- ---------------------------------------------------------------------------

/-- The lines in front of the device table. -/
def linesBefore (s : Session) (now : Timestamp) : List Line :=
  opening.map String.toList ++
  ["    <p class=\"timestamp\">Generated: ".toList ++ now.dateTime.toList ++ "</p>".toList,
   "    <div class=\"stats-grid\">".toList] ++ cards s now ++ ["    </div>".toList,
   "    <h2>Discovered Devices (".toList ++ number s.devices.size ++ ")</h2>".toList]

/-- The texts that these lines have in every report. -/
def fixedBefore : List String :=
  opening ++
  ["    <p class=\"timestamp\">Generated: ", "</p>", "    <div class=\"stats-grid\">",
   "        <div class=\"stat-card\"><div class=\"stat-value\">", "</div><div class=\"stat-label\">",
   "</div></div>", "    </div>", "    <h2>Discovered Devices (", ")</h2>"]

/-- All that is filled in between the fixed texts is plain. -/
theorem forall_linesBefore {P : List Char → Prop} (happend : ∀ {a b}, P a → P b → P (a ++ b))
    (hplain : ∀ {a}, Plain a → P a) (hfixed : ∀ part ∈ fixedBefore, P part.toList) (s : Session)
    (now : Timestamp) : ∀ line ∈ linesBefore s now, P line := by
  simp only [fixedBefore, List.forall_mem_append, List.forall_mem_cons] at hfixed
  obtain ⟨hopening, hgenerated, hparagraph, hgrid, hvalue, hlabel, hcard, hgridEnd, hdevices,
    htitle, -⟩ := hfixed
  have hcards : ∀ value label, P (card value label) := fun value label =>
    happend (happend (happend (happend hvalue (hplain (plain_escape value))) hlabel)
      (hplain (plain_escape label))) hcard
  simp only [linesBefore, cards, List.forall_mem_append, List.forall_mem_cons, List.forall_mem_map]
  exact ⟨⟨⟨hopening, happend (happend hgenerated (hplain now.plain_dateTime)) hparagraph, hgrid,
    List.forall_mem_nil _⟩, hcards _ _, hcards _ _, hcards _ _, hcards _ _, hcards _ _,
    List.forall_mem_nil _⟩, hgridEnd,
    happend (happend hdevices (hplain (Text.plain_decimal _))) htitle, List.forall_mem_nil _⟩

set_option maxRecDepth 4000 in
theorem quiet_fixedBefore : ∀ part ∈ fixedBefore, Quiet part.toList := by
  simp only [fixedBefore, opening, style, List.cons_append, List.nil_append, List.forall_mem_cons]
  and_intros
  all_goals first | exact List.forall_mem_nil _ | exact quiet_literal rfl rfl

/-- The lines behind the device table. -/
def linesAfter (s : Session) : List Line :=
  typeTable s ++ ["</div>".toList, "</body>".toList, "</html>".toList]

/-- The lines of a page, with the device table in their midst. -/
theorem page_eq (s : Session) (now : Timestamp) :
    page s now now.dateTime = linesBefore s now ++
      ("    <table>".toList ::
        ("        <tr><th>MAC Address</th><th>Name</th><th>Manufacturer</th><th>RSSI</th>" ++
          "<th>TX Power</th><th>Services</th><th>Packets</th><th>Last Seen</th></tr>").toList ::
        (s.devices.sorted.map deviceRow ++ ("    </table>".toList :: linesAfter s))) := by
  unfold page deviceTable linesBefore linesAfter
  simp only [List.append_assoc, List.cons_append, List.nil_append]

/-- The first table on a page has one row for every device, in report order, under
a row of titles. -/
theorem tables_text (s : Session) (now : Timestamp) :
    (tables (text s now)).head? = some (titles :: s.devices.sorted.map rowTexts) := by
  have hopen : "    <table>".toList = List.replicate 4 ' ' ++ tag "table".toList := toList_literal rfl
  have hclose : "    </table>".toList = List.replicate 4 ' ' ++ tag "/table".toList :=
    toList_literal rfl
  have hrows : (s.devices.sorted.map deviceRow).flatMap (· ++ ['\n']) =
      (s.devices.sorted.map rowCells).flatMap (rowLine rowIndent) := by
    rw [List.flatMap_map, List.flatMap_map]
    exact congrArg (s.devices.sorted.flatMap ·) (funext deviceRow_eq)
  have hfront : Quiet ((linesBefore s now).flatMap (· ++ ['\n']) ++ List.replicate 4 ' ') :=
    (quiet_flatMap fun line hline =>
      (forall_linesBefore Quiet.append quiet_plain quiet_fixedBefore s now line hline).append
        (quiet_plain (by decide))).append
      (quiet_plain (by decide))
  have htext : text s now = ((linesBefore s now).flatMap (· ++ ['\n']) ++ List.replicate 4 ' ') ++
      (tag "table".toList ++ (['\n'] ++
        ((headCells :: s.devices.sorted.map rowCells).flatMap (rowLine rowIndent) ++
          (List.replicate 4 ' ' ++ (tag "/table".toList ++
            ('\n' :: (linesAfter s).flatMap (· ++ ['\n']))))))) := by
    rw [text, page_eq, List.flatMap_append, List.flatMap_cons, List.flatMap_cons, List.flatMap_append,
      List.flatMap_cons, hrows, headLine_eq, hopen, hclose, List.flatMap_cons]
    simp only [List.append_assoc, List.cons_append, List.nil_append]
  rw [htext, head?_tables hfront (by decide) (by decide), List.map_cons, label_headCells,
    List.map_map]
  rfl

end HtmlReport

end BleCapture
