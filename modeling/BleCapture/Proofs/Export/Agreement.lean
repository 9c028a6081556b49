import BleCapture.Proofs.Device.Order
import BleCapture.Proofs.Export.CsvDocument
import BleCapture.Proofs.Export.DevicePage
import BleCapture.Proofs.Session.Filtering

/-!
# The three reports describe the same devices

JSON members are looked up by their key, cells of the two tables by the title of
their column. Read in this way, the three reports of a session list the same devices
in the same order with the same packet counts, and JSON and CSV agree on everything
that the CSV report gives in full.
-/

namespace BleCapture

/-- The value of a member of an object. -/
def Json.member? (key : String) : Json → Option Json
  | .obj members => members.lookup key
  | _ => none

/-- The cell of a row in the column of a title. -/
def cellUnder (titles : List String) (title : String) (row : List String) : Option String :=
  (titles.zip row).lookup title

-- ---------------------------------------------------------------------------
-- Lists in one cell
-- ---------------------------------------------------------------------------

namespace CsvReport

/-- The values of a cell in which they stand apart by a semicolon and a blank. -/
def readJoined (cell : String) : List String :=
  if cell = "" then []
  else
    match cell.toList.splitOn ';' with
    | [] => []
    | first :: others =>
      String.ofList first :: others.map fun part => String.ofList (part.drop 1)

/-- A value that can be told from its neighbours in a cell. -/
structure Separable (label : String) : Prop where
  ne_empty : label ≠ ""
  not_mem : ';' ∉ label.toList

theorem separable_literal {s : String} {cs : List Char} (h : s = String.ofList cs)
    (hcs : cs ≠ [] ∧ ';' ∉ cs) : Separable s := by
  have hlist : s.toList = cs := by rw [h, String.toList_ofList]
  refine ⟨fun hempty => hcs.1 ?_, by rw [hlist]; exact hcs.2⟩
  rw [← hlist, hempty, String.toList_empty]

theorem intercalate_cons (sep first : List Char) (others : List (List Char)) :
    sep.intercalate (first :: others) = first ++ others.flatMap (sep ++ ·) := by
  induction others generalizing first with
  | nil => exact List.intercalate_singleton.trans (List.append_nil first).symm
  | cons second others ih =>
    rw [List.intercalate_cons_cons, ih, List.flatMap_cons, List.append_assoc, List.append_assoc]

theorem readJoined_joined {labels : List String} (h : ∀ label ∈ labels, Separable label) :
    readJoined (joined labels) = labels := by
  cases labels with
  | nil => exact if_pos rfl
  | cons first others =>
    obtain ⟨hfirst, hothers⟩ := List.forall_mem_cons.mp h
    let parts := first.toList :: others.map fun label => ' ' :: label.toList
    have htext : (joined (first :: others)).toList = [';'].intercalate parts := by
      have hsep : "; ".toList = [';', ' '] := String.toList_ofList
      rw [joined, String.toList_intercalate, hsep, List.map_cons, intercalate_cons,
        intercalate_cons, List.flatMap_map, List.flatMap_map]
      rfl
    have hsplit : (joined (first :: others)).toList.splitOn ';' = parts := by
      rw [htext]
      refine List.splitOn_intercalate ';' (List.forall_mem_cons.mpr ⟨hfirst.not_mem, ?_⟩)
        (List.cons_ne_nil _ _)
      intro part hpart
      obtain ⟨label, hlabel, rfl⟩ := List.mem_map.mp hpart
      rw [List.mem_cons, not_or]
      exact ⟨by decide, (hothers label hlabel).not_mem⟩
    have hne : joined (first :: others) ≠ "" := by
      intro hempty
      rw [hempty, String.toList_empty, intercalate_cons] at htext
      exact hfirst.ne_empty (String.toList_eq_nil_iff.mp (List.append_eq_nil_iff.mp htext.symm).1)
    rw [readJoined, if_neg hne, hsplit]
    simp [parts, String.ofList_toList, Function.comp_def]

/-- A code in hex can stand in a list. -/
theorem separable_hexCode (width n : Nat) : Separable (Text.hexCode width n) := by
  have hdigit : ∀ d < 16, (Text.Hex.digit d).toUpper ≠ ';' := by decide
  have hlist : (Text.hexCode width n).toList = '0' :: 'x' :: Text.upperHex width n := by
    rw [Text.hexCode, String.toList_append, String.toList_ofList, String.toList_ofList]
    rfl
  refine ⟨fun hempty => ?_, ?_⟩
  · rw [hempty] at hlist
    cases hlist
  · rw [hlist, List.mem_cons, List.mem_cons, not_or, not_or]
    refine ⟨by decide, by decide, fun hmem => ?_⟩
    obtain ⟨d, hd, hc⟩ := Text.exists_digit_of_mem_upperHex hmem
    exact hdigit d hd hc.symm

theorem separable_services : ∀ e ∈ AssignedNumbers.services, Separable e.2 := by
  have hall : AssignedNumbers.services.all
      (fun e => decide (e.2 ≠ "" ∧ ';' ∉ e.2.toList)) = true := by
    decide +kernel
  intro e he
  obtain ⟨hne, hmem⟩ := of_decide_eq_true (List.all_eq_true.mp hall e he)
  exact ⟨hne, hmem⟩

theorem separable_serviceLabel (id : UInt16) : Separable (AssignedNumbers.serviceLabel id) := by
  rw [AssignedNumbers.serviceLabel, AssignedNumbers.serviceName?]
  rcases hname : AssignedNumbers.services.lookup id with _ | name
  · exact separable_hexCode 4 _
  · obtain ⟨before, after, hmem, -⟩ := List.lookup_eq_some_iff.mp hname
    exact separable_services (id, name) (hmem ▸ List.mem_append_right _ List.mem_cons_self)

theorem separable_advType (t : AdvType) : Separable t.label := by
  cases t with
  | unknown code => exact separable_hexCode 2 _
  | _ => exact separable_literal rfl (by decide)

end CsvReport

-- ---------------------------------------------------------------------------
-- Names
-- ---------------------------------------------------------------------------

theorem AdFields.ne_empty_of_name? {f : AdFields} {name : String} (h : f.name? = some name) :
    name ≠ "" := by
  rw [AdFields.name?] at h
  split at h
  · cases h
  · rename_i hbytes
    obtain rfl := Option.some.inj h
    have hchars : Text.Utf8.decode f.name ≠ [] :=
      Text.Utf8.decodeFrom_ne_nil (.inr fun hnil => hbytes (List.isEmpty_iff.mpr hnil))
    intro hempty
    apply hchars
    rw [← String.toList_ofList (l := Text.Utf8.decode f.name)]
    exact String.toList_eq_nil_iff.mpr hempty

/-- A record holds no empty name. -/
theorem Device.Summarizes.ne_empty_of_name {d : Device} {ss : List Sighting} (h : d.Summarizes ss)
    {name : String} (hname : d.name = some name) : name ≠ "" := by
  rw [h.name] at hname
  obtain ⟨s, -, hs⟩ := List.mem_filterMap.mp (List.mem_of_getLast? hname)
  exact AdFields.ne_empty_of_name? hs

theorem DeviceTable.ne_empty_of_name {ss : List Sighting} {d : Device}
    (hd : d ∈ (ofSightings ss).devices) {name : String} (hname : d.name = some name) :
    name ≠ "" := by
  have hget := (get?_eq_some_iff _ _ d).mpr ⟨hd, rfl⟩
  rw [get?_ofSightings] at hget
  exact (Device.summarizes_ofHistory? hget).ne_empty_of_name hname

-- ---------------------------------------------------------------------------
-- One device
-- ---------------------------------------------------------------------------

/-- A JSON value and a CSV cell that say the same. What is absent is an empty cell,
and no number or text is. -/
inductive SaysSame : Json → String → Prop
  | absent : SaysSame .null ""
  | number (n : Int) : SaysSame (.int n) (CsvReport.number n)
  | text {s : String} (h : s ≠ "") : SaysSame (.str s) s
  | list {labels : List String} {cell : String} (h : CsvReport.readJoined cell = labels) :
    SaysSame (.strings labels) cell

/-- The JSON members that have a CSV column of their own, with its title. -/
def sharedColumns : List (String × String) :=
  [("mac", "MAC Address"), ("name", "Name"), ("rssi_min", "RSSI (Min)"),
   ("rssi_max", "RSSI (Max)"), ("tx_power", "TX Power"), ("company_id", "Company ID"),
   ("services", "Services"), ("packet_count", "Packet Count"), ("adv_types", "ADV Types")]

/-- An entry of the JSON report and a row of the CSV report describe one device. -/
structure DescribeSame (entry : Json) (row : List String) : Prop where
  shared : ∀ f ∈ sharedColumns, ∃ value cell, entry.member? f.1 = some value ∧
    cellUnder CsvReport.header f.2 row = some cell ∧ SaysSame value cell
  name_absent_iff : entry.member? "name" = some .null ↔
    cellUnder CsvReport.header "Name" row = some ""

theorem saysSame_joined {labels : List String} (h : ∀ label ∈ labels, CsvReport.Separable label) :
    SaysSame (.strings labels) (CsvReport.joined labels) :=
  .list (CsvReport.readJoined_joined h)

/-- An optional value that shows says the same as its cell, and so does an absent
one. -/
theorem saysSame_option {f : α → Json} {g : α → String} {o : Option α}
    (h : ∀ a, o = some a → SaysSame (f a) (g a)) :
    SaysSame (Json.ofOption f o) ((o.map g).getD "") := by
  cases o with
  | none => exact .absent
  | some a => exact h a rfl

theorem describeSame_row (d : Device) (hname : ∀ name, d.name = some name → name ≠ "") :
    DescribeSame (JsonReport.device d) (CsvReport.row d) where
  shared := by
    have hmac : SaysSame (.str d.address.toString) d.address.toString := by
      obtain ⟨before, after, htext⟩ : ∃ before after, d.address.text = before ++ ':' :: after :=
        ⟨_, _, rfl⟩
      refine .text fun hempty => ?_
      rw [Address.toString, htext, String.ofList_eq_empty_iff] at hempty
      exact List.append_ne_nil_of_right_ne_nil before (List.cons_ne_nil ':' after) hempty
    have hnameCell : SaysSame (Json.ofOption .str d.name) (d.name.getD "") := by
      have h := saysSame_option (f := .str) (g := id) fun name h => .text (hname name h)
      rwa [Option.map_id] at h
    have hcompany : SaysSame (Json.ofOption (fun c => JsonReport.hexCode 4 c.toNat) d.companyId)
        ((d.companyId.map fun c => Text.hexCode 4 c.toNat).getD "") :=
      saysSame_option fun c _ => .text (CsvReport.separable_hexCode 4 c.toNat).ne_empty
    have hservices : SaysSame (.strings d.serviceLabels) (CsvReport.joined d.serviceLabels) := by
      refine saysSame_joined fun label hlabel => ?_
      obtain ⟨id, -, rfl⟩ := List.mem_map.mp hlabel
      exact CsvReport.separable_serviceLabel id
    have htypes : SaysSame (.strings d.advTypeLabels) (CsvReport.joined d.advTypeLabels) := by
      refine saysSame_joined fun label hlabel => ?_
      obtain ⟨t, -, rfl⟩ := List.mem_map.mp hlabel
      exact CsvReport.separable_advType t
    simp only [sharedColumns, List.forall_mem_cons]
    exact ⟨⟨_, _, rfl, rfl, hmac⟩, ⟨_, _, rfl, rfl, hnameCell⟩, ⟨_, _, rfl, rfl, .number _⟩,
      ⟨_, _, rfl, rfl, .number _⟩, ⟨_, _, rfl, rfl, saysSame_option fun p _ => .number p.toInt⟩,
      ⟨_, _, rfl, rfl, hcompany⟩, ⟨_, _, rfl, rfl, hservices⟩, ⟨_, _, rfl, rfl, .number _⟩,
      ⟨_, _, rfl, rfl, htypes⟩, List.forall_mem_nil _⟩
  name_absent_iff := by
    have hjson : (JsonReport.device d).member? "name" = some (Json.ofOption .str d.name) := rfl
    have hcsv : cellUnder CsvReport.header "Name" (CsvReport.row d) = some (d.name.getD "") := rfl
    rw [hjson, hcsv, Option.some.injEq, Option.some.injEq]
    rcases hcase : d.name with _ | name
    · exact ⟨fun _ => rfl, fun _ => rfl⟩
    · exact ⟨fun h => (nomatch h), fun h => absurd h (hname name hcase)⟩

-- ---------------------------------------------------------------------------
-- All devices
-- ---------------------------------------------------------------------------

/-- The three tables of a session list the same devices in the same order: an entry
of the JSON report, a row of the CSV report and a row of the page for each line. -/
structure ListDevices (lines : List Standing) (json : List Json) (csv html : List (List String)) :
    Prop where
  of_json : json.map (fun entry => (entry.member? "mac", entry.member? "packet_count")) =
    lines.map fun line => (some (.str line.1.toString), some (.nat line.2))
  of_csv : csv.map (fun row => (cellUnder CsvReport.header "MAC Address" row,
      cellUnder CsvReport.header "Packet Count" row)) =
    lines.map fun line => (some line.1.toString, some (CsvReport.number line.2))
  of_html : html.map (fun row => (cellUnder HtmlReport.titles "MAC Address" row,
      cellUnder HtmlReport.titles "Packets" row)) =
    lines.map fun line => (some line.1.toString, some (CsvReport.number line.2))
  described : List.Forall₂ DescribeSame json csv

theorem listDevices_map {ds : List Device}
    (hname : ∀ d ∈ ds, ∀ name, d.name = some name → name ≠ "") :
    ListDevices (ds.map Device.standing) (ds.map JsonReport.device) (ds.map CsvReport.row)
      (ds.map HtmlReport.rowTexts) where
  of_json := by
    rw [List.map_map, List.map_map]
    rfl
  of_csv := by
    rw [List.map_map, List.map_map]
    rfl
  of_html := by
    rw [List.map_map, List.map_map]
    rfl
  described := by
    rw [List.forall₂_map_left_iff, List.forall₂_map_right_iff, List.forall₂_same]
    exact fun d hd => describeSame_row d (hname d hd)

theorem JsonReport.bytes_document (s : Session) (now : Timestamp) :
    (document s now).bytes = Text.Utf8.encode ((report s now).text ++ ['\n']) := by
  rw [Text.Utf8.encode_append]
  exact congrArg (Text.Utf8.encode (report s now).text ++ ·) (List.append_nil _)

namespace Session

/-- After any run under any filter, the three reports list the devices that the
filter let through: each address once, with the number of its sightings, more
packets first and the lower address first among equals. Each report is taken from
the bytes of its document: as the text of the JSON value, as the table of the CSV
text and as the first table on the page. -/
theorem reports_describe_same_devices (tag : String) (start : Timestamp) (filter : PacketFilter)
    (steps : List SessionStep) (now : Timestamp) :
    let s := (run tag { start, filter } steps).1
    let matched := filter.sightings (steps.filterMap (SessionStep.frame? tag))
    let distinct := (matched.map Sighting.address).eraseDups
    let written := fun document : Document => document.writeTo {}
    let read := fun document : Document => Text.Utf8.decode (written document).1.bytes
    (∀ f : ExportFormat, (written (f.document s now)).2 = none) ∧
    ∃ lines json csv html,
      read (JsonReport.document s now) = (JsonReport.report s now).text ++ ['\n'] ∧
      (JsonReport.report s now).member? "devices" = some (.arr json) ∧
      Csv.parse? (read (CsvReport.document s)) =
        some ((CsvReport.rows s).map fun row => row.map String.toList) ∧
      CsvReport.rows s = CsvReport.header :: csv ∧
      (Markup.tables (read (HtmlReport.document s now))).head? = some (HtmlReport.titles :: html) ∧
      json.length = distinct.length ∧ csv.length = distinct.length ∧
      html.length = distinct.length ∧
      lines.Pairwise Outranks ∧
      (∀ line : Standing, line ∈ lines ↔
        line.1 ∈ matched.map Sighting.address ∧ line.2 = (sightingsOf line.1 matched).length) ∧
      ListDevices lines json csv html := by
  intro s matched distinct written read
  have hdevices : s.devices = DeviceTable.ofSightings matched :=
    (selects_run tag start filter steps).devices
  have hperm : s.devices.sorted.Perm s.devices.devices := s.devices.sorted_perm
  have hlength : s.devices.sorted.length = distinct.length := by
    rw [hperm.length_eq, hdevices, ← List.length_map, DeviceTable.addresses_ofSightings]
  have hname : ∀ d ∈ s.devices.sorted, ∀ name, d.name = some name → name ≠ "" := by
    intro d hd name hname
    have hmem : d ∈ (DeviceTable.ofSightings matched).devices := hdevices ▸ hperm.mem_iff.mp hd
    exact DeviceTable.ne_empty_of_name hmem hname
  have hread : ∀ {document : Document} {text : List Char},
      document.bytes = Text.Utf8.encode text → read document = text :=
    fun h => (Document.writeTo_of_text h).2.2
  refine ⟨fun f => (Document.writeTo_of_unlimited rfl (f.document s now)).1,
    s.devices.sorted.map Device.standing, s.devices.sorted.map JsonReport.device,
    s.devices.sorted.map CsvReport.row, s.devices.sorted.map HtmlReport.rowTexts,
    hread (JsonReport.bytes_document s now), rfl, ?_, rfl, ?_, ?_, ?_, ?_,
    s.devices.pairwise_sorted, ?_, listDevices_map hname⟩
  · rw [hread (CsvReport.bytes_document s)]
    exact Csv.parse?_of_tableText (CsvReport.tableText_records s)
  · rw [hread (HtmlReport.bytes_document s now)]
    exact HtmlReport.tables_text s now
  · rw [List.length_map, hlength]
  · rw [List.length_map, hlength]
  · rw [List.length_map, hlength]
  · rw [hdevices]
    exact DeviceTable.mem_standings_ofSightings matched

end Session

end BleCapture
