import BleCapture.Proofs.Device.Order
import BleCapture.Proofs.Export.Agreement
import BleCapture.Proofs.Text.Occurrences

/-!
# Names cannot inject markup

On a page the tag `<code>` stands in front of each address of the device table and
nowhere else, so a device is counted by it whatever the devices call themselves. The
name cell of a device shows its name escaped.
-/

namespace BleCapture.HtmlReport

open Markup Text

def codeTag : List Char := ['<', 'c', 'o', 'd', 'e', '>']

-- ---------------------------------------------------------------------------
-- Text without the tag
-- ---------------------------------------------------------------------------

theorem free_plain {s : List Char} (h : Plain s) : Free codeTag s :=
  free_of_not_mem fun hmem => (h '<' hmem).1 rfl

theorem free_literal {s : String} {cs : List Char} (h : s = String.ofList cs)
    (hcs : isFree codeTag cs = true) : Free codeTag s.toList := by
  rw [toList_literal h]
  exact free_of_isFree hcs

set_option maxRecDepth 4000 in
theorem free_fixedBefore : ∀ part ∈ fixedBefore, Free codeTag part.toList := by
  simp only [fixedBefore, opening, style, List.cons_append, List.nil_append, List.forall_mem_cons]
  and_intros
  all_goals first | exact List.forall_mem_nil _ | exact free_literal rfl rfl

theorem free_linesBefore (s : Session) (now : Timestamp) :
    ∀ line ∈ linesBefore s now, Free codeTag line :=
  forall_linesBefore Free.append free_plain free_fixedBefore s now

theorem free_typeRow (total : Nat) (entry : PacketClass × Nat) :
    Free codeTag (typeRow total entry) := by
  have hopen : Free codeTag "        <tr><td>".toList := free_literal rfl rfl
  have hnext : Free codeTag "</td><td>".toList := free_literal rfl rfl
  have hclose : Free codeTag "%</td></tr>".toList := free_literal rfl rfl
  exact (((((hopen.append (free_plain (plain_escape _))).append hnext).append
    (free_plain (plain_decimal _))).append hnext).append
      (free_plain (Decimal.plain_fixed 1 _))).append hclose

theorem free_linesAfter (s : Session) : ∀ line ∈ linesAfter s, Free codeTag line := by
  have hrows : ∀ line ∈ (typesByCount s.types).map (typeRow s.packets), Free codeTag line :=
    List.forall_mem_map.mpr fun entry _ => free_typeRow s.packets entry
  simp only [linesAfter, typeTable, List.forall_mem_append, List.forall_mem_cons]
  exact ⟨⟨⟨⟨free_literal rfl rfl, free_literal rfl rfl,
    free_literal rfl rfl, List.forall_mem_nil _⟩, hrows⟩,
    free_literal rfl rfl, List.forall_mem_nil _⟩, free_literal rfl rfl,
    free_literal rfl rfl, free_literal rfl rfl, List.forall_mem_nil _⟩

-- ---------------------------------------------------------------------------
-- Rows
-- ---------------------------------------------------------------------------

theorem free_deviceName (d : Device) : Free codeTag (deviceName d) := by
  unfold deviceName
  split
  · exact free_plain (plain_escape _)
  · exact free_literal rfl rfl

theorem free_badges (labels : List String) : Free codeTag (badges labels) := by
  have hservice : Free codeTag "<span class=\"badge badge-service\">".toList :=
    free_literal rfl rfl
  have hmore : Free codeTag "<span class=\"badge\">+".toList := free_literal rfl rfl
  have hclose : Free codeTag "</span>".toList := free_literal rfl rfl
  unfold badges
  split
  · exact free_plain (by decide)
  · refine Free.append (free_flatMap fun label _ => ?_) ?_
    · exact (hservice.append (free_plain (plain_escape label.toList))).append hclose
    · split
      · exact (hmore.append (free_plain (plain_decimal _))).append hclose
      · exact free_nil

/-- The tag begins a row, and is not found in the rest of it. -/
theorem deviceRow_split (d : Device) :
    ∃ rest, deviceRow d = "        <tr><td>".toList ++ (codeTag ++ rest) ∧ Free codeTag rest := by
  have hstart : "        <tr><td><code>".toList = "        <tr><td>".toList ++ codeTag := by
    rw [toList_literal (s := "        <tr><td><code>") rfl, toList_literal (s := "        <tr><td>") rfl]
    rfl
  have hnext : Free codeTag "</td><td>".toList := free_literal rfl rfl
  refine ⟨d.address.text ++ ("</code></td><td>".toList ++ (deviceName d ++
    ("</td><td class=\"manufacturer\">".toList ++ (escaped (d.vendor?.getD "Unknown") ++
    ("</td><td class=\"".toList ++ ((signalClass d.signal.mean).toList ++ ("\">".toList ++
    ((Decimal.fixed 0 d.signal.mean).toList ++ (" dBm</td><td>".toList ++ (powerText d ++
    ("</td><td>".toList ++ (badges d.serviceLabels ++ ("</td><td>".toList ++
    (number d.packetCount ++ ("</td><td class=\"timestamp\">".toList ++
    (d.lastSeen.timeOfDay.toList ++ "</td></tr>".toList)))))))))))))))), ?_, ?_⟩
  · unfold deviceRow
    rw [hstart]
    simp only [List.append_assoc]
  · exact (free_plain d.address.plain_text).append <| (free_literal rfl rfl).append <|
      (free_deviceName d).append <| (free_literal rfl rfl).append <|
      (free_plain (plain_escape _)).append <| (free_literal rfl rfl).append <|
      (free_plain (plain_signalClass _)).append <| (free_literal rfl rfl).append <|
      (free_plain (Decimal.plain_fixed 0 _)).append <| (free_literal rfl rfl).append <|
      (free_plain (plain_powerText d)).append <| hnext.append <| (free_badges _).append <|
      hnext.append <| (free_plain (plain_decimal _)).append <|
      (free_literal rfl rfl).append <|
      (free_plain d.lastSeen.plain_timeOfDay).append (free_literal rfl rfl)

-- ---------------------------------------------------------------------------
-- The page
-- ---------------------------------------------------------------------------

/-- What a row begins with. -/
def rowTag : List Char := "<td>".toList ++ codeTag

theorem rowTag_infix_deviceRow (d : Device) : rowTag <:+: deviceRow d ++ ['\n'] := by
  obtain ⟨rest, hrow, -⟩ := deviceRow_split d
  have hstart : "        <tr><td>".toList = "        <tr>".toList ++ "<td>".toList := by
    rw [← String.toList_append]
    rfl
  refine ⟨"        <tr>".toList, rest ++ ['\n'], ?_⟩
  rw [hrow, hstart, rowTag]
  simp only [List.append_assoc]

theorem occurrences_codeTag_deviceRow (d : Device) (s : List Char) :
    occurrences codeTag (deviceRow d ++ ['\n'] ++ s) = 1 + occurrences codeTag s := by
  obtain ⟨rest, hrow, hrest⟩ := deviceRow_split d
  have hopen : Free codeTag "        <tr><td>".toList := free_literal rfl rfl
  have hend : Free codeTag ['\n'] := free_plain (by decide)
  have hself : ∀ t, occurrences codeTag (codeTag ++ t) = 1 + occurrences codeTag t :=
    occurrences_self_append (by decide)
  rw [hrow, List.append_assoc, List.append_assoc, List.append_assoc, hopen, hself, hrest, hend]

/-- A page is made of lines in front of the device rows, the rows, and lines behind
them. -/
theorem exists_text_eq_rows (s : Session) (now : Timestamp) :
    ∃ before after : List Line, text s now = before.flatMap (· ++ ['\n']) ++
        (s.devices.sorted.flatMap (fun d => deviceRow d ++ ['\n']) ++ after.flatMap (· ++ ['\n'])) ∧
      (∀ line ∈ before, Free codeTag line) ∧ ∀ line ∈ after, Free codeTag line := by
  let head := "        <tr><th>MAC Address</th><th>Name</th><th>Manufacturer</th><th>RSSI</th>" ++
    "<th>TX Power</th><th>Services</th><th>Packets</th><th>Last Seen</th></tr>"
  refine ⟨linesBefore s now ++ ["    <table>".toList, head.toList],
    "    </table>".toList :: linesAfter s, ?_, ?_, ?_⟩
  · rw [text, page_eq, List.flatMap_append, List.flatMap_append, List.append_assoc,
      List.flatMap_cons, List.flatMap_cons, List.flatMap_append, List.flatMap_map]
    simp only [List.flatMap_cons, List.flatMap_nil, List.append_assoc, List.append_nil, head]
  · have hhead : Free codeTag head.toList := by
      rw [String.toList_append]
      exact (free_literal rfl rfl).append (free_literal rfl rfl)
    simp only [List.forall_mem_append, List.forall_mem_cons]
    exact ⟨free_linesBefore s now, free_literal rfl rfl, hhead, List.forall_mem_nil _⟩
  · exact List.forall_mem_cons.mpr ⟨free_literal rfl rfl, free_linesAfter s⟩

theorem free_lines {lines : List Line} (h : ∀ line ∈ lines, Free codeTag line) :
    Free codeTag (lines.flatMap (· ++ ['\n'])) :=
  free_flatMap fun line hline => (h line hline).append (free_plain (by decide))

theorem occurrences_codeTag_text (s : Session) (now : Timestamp) :
    occurrences codeTag (text s now) = s.devices.sorted.length := by
  obtain ⟨before, after, htext, hbefore, hafter⟩ := exists_text_eq_rows s now
  have hnone : occurrences codeTag (after.flatMap (· ++ ['\n'])) = 0 := by
    rw [← List.append_nil (after.flatMap _), free_lines hafter]
    exact occurrences_nil (by decide)
  rw [htext, free_lines hbefore,
    occurrences_flatMap_append fun d _ => occurrences_codeTag_deviceRow d, hnone, Nat.add_zero]

theorem occurrences_rowTag_text (s : Session) (now : Timestamp) :
    occurrences rowTag (text s now) = s.devices.sorted.length := by
  have hne : rowTag ≠ [] := List.append_ne_nil_of_right_ne_nil _ (by decide)
  obtain ⟨before, after, htext, -, -⟩ := exists_text_eq_rows s now
  have hrows : s.devices.sorted.length ≤
      occurrences rowTag (s.devices.sorted.flatMap fun d => deviceRow d ++ ['\n']) :=
    length_le_occurrences_flatMap hne fun d _ => rowTag_infix_deviceRow d
  -- There is at least one in each row, and no more than there are `<code>` tags.
  apply Nat.le_antisymm
  · rw [← occurrences_codeTag_text s now]
    exact occurrences_append_le (by decide) "<td>".toList _
  · refine hrows.trans (occurrences_mono hne ?_)
    rw [htext]
    exact ⟨_, _, List.append_assoc _ _ _⟩

/-- What a row of the table shows as the name of a device stands for that name. -/
def ShowsName (d : Device) (row : List String) : Prop :=
  ∀ name, d.name = some name →
    ∃ cell, cellUnder titles "Name" row = some cell ∧ Escapes cell.toList name.toList

theorem showsName_rowTexts (d : Device) : ShowsName d (rowTexts d) := by
  intro name hname
  have hcell : cellUnder titles "Name" (rowTexts d) = some (String.ofList (nameText d)) := rfl
  have htext : nameText d = escaped name := by rw [nameText, hname]
  refine ⟨_, hcell, ?_⟩
  rw [htext, String.toList_ofList]
  exact escapes_escape name.toList

/-- No name gets markup onto a page. An escaped text holds no bracket, quote or stray
ampersand and reads back as the text, and it is the same whether or not the text is
looked through first. A page is written without an error, the tag that begins a device
row stands on it once for every device, and the first table has a row for each of them
whose name cell stands for its name. -/
theorem page_without_injection :
    (∀ s, Escapes (escape s) s ∧ escape s = s.flatMap escapeChar) ∧
    ∀ (s : Session) (now : Timestamp),
      let written := (document s now).writeTo {}
      let page := Text.Utf8.decode written.1.bytes
      written.2 = none ∧ Text.Utf8.encode page = written.1.bytes ∧
        occurrences "<td><code>".toList page = s.devices.size ∧
        ∃ rows, (Markup.tables page).head? = some (titles :: rows) ∧
          List.Forall₂ ShowsName s.devices.sorted rows := by
  refine ⟨fun s => ⟨escapes_escape s, escape_eq_flatMap s⟩, ?_⟩
  intro s now written page
  obtain ⟨hnone, hwritten, hpage⟩ : written.2 = none ∧
      written.1.bytes = Text.Utf8.encode (text s now) ∧ page = text s now :=
    Document.writeTo_of_text (bytes_document s now)
  have hsize : s.devices.sorted.length = s.devices.size := s.devices.sorted_perm.length_eq
  have htag : "<td><code>".toList = rowTag := by
    rw [toList_literal (s := "<td><code>") rfl, rowTag, toList_literal (s := "<td>") rfl]
    rfl
  refine ⟨hnone, by rw [hpage, hwritten], ?_, s.devices.sorted.map rowTexts, ?_, ?_⟩
  · rw [hpage, htag, occurrences_rowTag_text, hsize]
  · rw [hpage]
    exact tables_text s now
  · rw [List.forall₂_map_right_iff, List.forall₂_same]
    exact fun d _ => showsName_rowTexts d

end BleCapture.HtmlReport
