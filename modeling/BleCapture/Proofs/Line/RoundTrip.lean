import BleCapture.Line.Encode
import BleCapture.Proofs.Advertisement.Structure
import BleCapture.Proofs.Hci.Report
import BleCapture.Proofs.Line.Rendering

/-!
# Transport lines that are read back

The fields of a frame are read back from any text that ends with them. Whether
a whole line is read back depends on its tag alone.
-/

namespace BleCapture.Line

open Text (IsGraphic Numeral Visible)

/-- A number below 256 as the value of a field. -/
def numberText (n : Nat) : List Char := '0' :: 'x' :: Text.lowerHex 2 n

/-- The fields of a frame, without blanks and in their usual order. The text of the
length is given. -/
def plainFields (type : PacketType) (length : List Char) (payload : List UInt8) : List Char :=
  fieldText FieldName.packetType.text.toList (numberText type.code.toNat) ++ ',' ::
    (fieldText FieldName.length.text.toList length ++ ',' ::
      (fieldText FieldName.data.text.toList (Text.Hex.encode payload) ++ []))

theorem encodeFields_eq (type : PacketType) (payload : List UInt8) :
    encodeFields type payload = plainFields type (numberText payload.length) payload := by
  have htype : "pkt_type=[0x".toList =
      FieldName.packetType.text.toList ++ ['=', '[', '0', 'x'] := by decide
  have hlength : "],len=[0x".toList =
      [']', ','] ++ FieldName.length.text.toList ++ ['=', '[', '0', 'x'] := by decide
  have hdata : "],data=[".toList = [']', ','] ++ FieldName.data.text.toList ++ ['=', '['] := by
    decide
  unfold encodeFields plainFields fieldText numberText
  rw [htype, hlength, hdata]
  simp only [List.append_assoc, List.cons_append, List.nil_append, List.append_nil]

theorem numeral_lowerHex_two {n : Nat} (h : n < 256) : Numeral 16 (Text.lowerHex 2 n) n := by
  have hhigh : n / 16 < 16 := by omega
  have hlow : n % 16 < 16 := Nat.mod_lt n (by decide)
  have hdigits := Numeral.more (.digit (Text.Hex.digitValue?_digit hhigh))
    (Text.Hex.digitValue?_digit hlow)
  rw [Nat.div_add_mod'] at hdigits
  rw [Text.lowerHex_two h]
  exact hdigits

theorem numberText_shows {n : Nat} (h : n < 256) : NumberText n (numberText n) :=
  ⟨['0', 'x'], by decide, _, numeral_lowerHex_two h, rfl⟩

theorem graphic_numberText {n : Nat} (h : n < 256) : ∀ c ∈ numberText n, IsGraphic c := by
  simp only [numberText, List.forall_mem_cons]
  refine ⟨by decide, by decide, fun c hc => ?_⟩
  obtain ⟨v, hv⟩ := (numeral_lowerHex_two h).exists_digit c hc
  exact Text.graphic_of_digitValue? hv

-- ---------------------------------------------------------------------------
-- Fields
-- ---------------------------------------------------------------------------

theorem written_plainFields (type : PacketType) {length : List Char} {payload : List UInt8}
    (h : NumberText payload.length length) :
    Written type payload [.packetType, .length, .data] (plainFields type length payload) := by
  have htype : ValueText type payload .packetType (numberText type.code.toNat) :=
    numberText_shows type.code.toNat_lt_size
  have hlength : ValueText type payload .length length := h
  have hdata : ValueText type payload .data (Text.Hex.encode payload) :=
    Text.Hex.spells_encode payload
  have hwritten := Written.field (.tight [] (by decide)) htype <|
    .field (.tight [','] (by decide)) hlength <| .field (.tight [','] (by decide)) hdata (.tail [])
  simp only [Spacing.tight_write, List.nil_append, List.cons_append] at hwritten
  exact hwritten

theorem graphic_fieldText (name : FieldName) {value : List Char} (h : ∀ c ∈ value, IsGraphic c) :
    ∀ c ∈ fieldText name.text.toList value, IsGraphic c := by
  have hname : ∀ c ∈ name.text.toList, IsGraphic c := by
    have hall : name.text.toList.all (fun c => decide (IsGraphic c)) = true := by
      cases name <;> decide
    intro c hc
    exact of_decide_eq_true (List.all_eq_true.mp hall c hc)
  simp only [fieldText, List.forall_mem_append, List.forall_mem_cons]
  exact ⟨⟨hname, by decide, by decide, h⟩, by decide, by simp⟩

theorem graphic_plainFields (type : PacketType) {length : List Char} (payload : List UInt8)
    (h : ∀ c ∈ length, IsGraphic c) : ∀ c ∈ plainFields type length payload, IsGraphic c := by
  have hcomma : IsGraphic ',' := by decide
  have htype := graphic_fieldText .packetType (graphic_numberText type.code.toNat_lt_size)
  have hlength := graphic_fieldText .length h
  have hdata : ∀ c ∈ fieldText FieldName.data.text.toList (Text.Hex.encode payload), IsGraphic c :=
    graphic_fieldText .data (Text.Hex.spells_encode payload).graphic
  simp only [plainFields, List.forall_mem_append, List.forall_mem_cons]
  exact ⟨htype, hcomma, hlength, hcomma, hdata, by simp⟩

theorem decodeFields_plainFields {type : PacketType} {length : List Char} {payload : List UInt8}
    (hlength : NumberText payload.length length) (hgraphic : ∀ c ∈ length, IsGraphic c)
    (hmax : payload.length ≤ min type.maxPayload 65535) :
    decodeFields (plainFields type length payload) = .ok (Frame.ofPayload type payload) := by
  have hsigns : readSigns (plainFields type length payload) = plainFields type length payload := by
    refine readSigns_of_not_mem fun hmem => ?_
    exact absurd (graphic_plainFields type payload hgraphic _ hmem).2 (by decide)
  have hfields := (written_plainFields type hlength).fieldsOf (.refl _) hmax
  rw [hsigns] at hfields
  exact decodeFields_eq_ok_iff.mpr hfields

theorem getLast?_plainFields (type : PacketType) (length : List Char) (payload : List UInt8) :
    (plainFields type length payload).getLast? = some ']' := by
  simp only [plainFields, fieldText, List.append_nil, ← List.append_assoc, ← List.cons_append]
  exact List.getLast?_concat

theorem graphic_encodeFields (type : PacketType) {payload : List UInt8}
    (h : payload.length < 256) : ∀ c ∈ encodeFields type payload, IsGraphic c := by
  rw [encodeFields_eq]
  exact graphic_plainFields type payload (graphic_numberText h)

theorem decodeFields_encodeFields (type : PacketType) {payload : List UInt8}
    (h : payload.length < 256) :
    decodeFields (encodeFields type payload) = .ok (Frame.ofPayload type payload) := by
  have hmax : payload.length ≤ min type.maxPayload 65535 := by
    have : 255 ≤ type.maxPayload := by cases type <;> decide
    omega
  rw [encodeFields_eq]
  exact decodeFields_plainFields (numberText_shows h) (graphic_numberText h) hmax

-- ---------------------------------------------------------------------------
-- Tags
-- ---------------------------------------------------------------------------

/-- A tag that the reader finds in front of its fields. -/
def Workable (tag : List Char) : Prop :=
  multiplicationSign ∉ tag ∧ tag.head?.any Text.isBlank = false

instance : DecidablePred Workable := fun tag =>
  inferInstanceAs (Decidable (multiplicationSign ∉ tag ∧ tag.head?.any Text.isBlank = false))

theorem not_mem_normalize (line : List Char) : multiplicationSign ∉ normalize line := by
  intro h
  obtain ⟨c, -, hc⟩ := List.mem_map.mp h
  split at hc
  · exact absurd hc (by decide)
  · rename_i hne
    exact hne hc

theorem normalize_append {s t : List Char} (hs : multiplicationSign ∉ s) (hne : t ≠ [])
    (ht : ∀ c ∈ t, IsGraphic c) : normalize (s ++ t) = Text.trimStart s ++ t := by
  have htrim : multiplicationSign ∉ Text.trimStart s ++ t := by
    rw [List.mem_append, not_or]
    refine ⟨fun h => hs (List.dropWhile_subset _ h), fun h => ?_⟩
    exact absurd (ht _ h).2 (by decide)
  rw [normalize_eq, Text.trim_append_visible hne (Text.visible_of_graphic ht),
    readSigns_of_not_mem htrim]

theorem trim_append_fields {tag fields : List Char} (h : Workable tag)
    (hgraphic : ∀ c ∈ ':' :: fields, IsGraphic c) :
    Text.trim (tag ++ ':' :: fields) = tag ++ ':' :: fields := by
  rw [Text.trim_append_visible (List.cons_ne_nil _ _) (Text.visible_of_graphic hgraphic),
    Text.trimStart_of_head h.2]

/-- Behind a tag that is found, a line is read as its fields are. -/
theorem decodeChars_append_fields {tag fields : List Char} (h : Workable tag)
    (hgraphic : ∀ c ∈ ':' :: fields, IsGraphic c) :
    decodeChars tag (tag ++ ':' :: fields) = decodeFields fields := by
  have hat : Text.after? tag (normalize (tag ++ ':' :: fields)) = some (':' :: fields) := by
    rw [normalize_append h.1 (List.cons_ne_nil _ _) hgraphic, Text.trimStart_of_head h.2,
      Text.after?_append_self]
  have hcolon : afterColon (':' :: fields) = fields := by
    rw [afterColon, Text.trimStart_of_visible (Text.visible_of_graphic hgraphic)]
    rfl
  simp only [decodeChars, hat, hcolon]

/-- The frame that a line carries. -/
def frame (a : Advertisement) : Frame :=
  Frame.ofPayload .leMetaEvent (Report.encodeAll [a.report])

theorem length_payload_frame (a : Advertisement) :
    (frame a).payload.length = 12 + min a.payload.length 243 := by
  have hdata : a.report.data.length = min a.payload.length 243 := by
    rw [Advertisement.report, List.length_take, Nat.min_comm]
    rfl
  rw [frame, Frame.ofPayload, Report.encodeAll, List.flatMap_singleton, List.length_cons,
    List.length_cons, Report.length_encode, hdata]
  omega

theorem length_payload_frame_lt (a : Advertisement) : (frame a).payload.length < 256 := by
  rw [length_payload_frame]
  omega

/-- What stands behind the tag. -/
def body (a : Advertisement) : List Char :=
  ':' :: encodeFields .leMetaEvent (frame a).payload

theorem encodeChars_eq (tag : List Char) (a : Advertisement) :
    encodeChars tag a = tag ++ body a := rfl

theorem body_ne_nil (a : Advertisement) : body a ≠ [] := List.cons_ne_nil _ _

theorem graphic_body (a : Advertisement) : ∀ c ∈ body a, IsGraphic c := by
  rw [body, List.forall_mem_cons]
  exact ⟨by decide, graphic_encodeFields .leMetaEvent (length_payload_frame_lt a)⟩

theorem normalize_encodeChars {tag : List Char} (h : multiplicationSign ∉ tag)
    (a : Advertisement) : normalize (encodeChars tag a) = Text.trimStart tag ++ body a :=
  normalize_append h (body_ne_nil a) (graphic_body a)

/-- A tag that the line has lost is nowhere else in it. -/
theorem after?_of_not_workable {tag : List Char} (h : ¬ Workable tag) (a : Advertisement) :
    Text.after? tag (normalize (encodeChars tag a)) = none := by
  rw [Text.after?_eq_none_iff]
  intro hfound
  by_cases hsign : multiplicationSign ∈ tag
  -- No sign is left in the line.
  · exact not_mem_normalize _ (hfound.subset hsign)
  · obtain ⟨c, hhead, hblank⟩ : ∃ c, tag.head? = some c ∧ Text.isBlank c = true := by
      cases tag with
      | nil => exact absurd ⟨hsign, rfl⟩ h
      | cons c rest =>
        cases hb : Text.isBlank c with
        | true => exact ⟨c, rfl, hb⟩
        | false => exact absurd ⟨hsign, hb⟩ h
    -- The line has lost blanks of the tag, and there are no others in it.
    have hbody : (body a).countP Text.isBlank = 0 := by
      rw [List.countP_eq_zero]
      intro c hc
      rw [(graphic_body a c hc).not_blank]
      exact Bool.false_ne_true
    have hle := hfound.sublist.countP_le (p := Text.isBlank)
    have hlt := Text.countP_isBlank_trimStart_lt hhead hblank
    rw [normalize_encodeChars hsign, List.countP_append, hbody] at hle
    omega

theorem decodeChars_encodeChars {tag : List Char} (h : Workable tag) (a : Advertisement) :
    decodeChars tag (encodeChars tag a) = .ok (frame a) := by
  have hread : decodeChars tag (encodeChars tag a) =
      decodeFields (encodeFields .leMetaEvent (frame a).payload) :=
    decodeChars_append_fields h (graphic_body a)
  rw [hread]
  exact decodeFields_encodeFields .leMetaEvent (length_payload_frame_lt a)

theorem decodeChars_of_not_workable {tag : List Char} (h : ¬ Workable tag) (a : Advertisement) :
    decodeChars tag (encodeChars tag a) = .error .missingTag := by
  simp only [decodeChars, after?_of_not_workable h]

-- ---------------------------------------------------------------------------
-- Lines
-- ---------------------------------------------------------------------------

theorem trim_encodeChars {tag : List Char} (h : Workable tag) (a : Advertisement) :
    Text.trim (encodeChars tag a) = encodeChars tag a :=
  trim_append_fields h (graphic_body a)

theorem getLast?_encodeChars (tag : List Char) (a : Advertisement) :
    (encodeChars tag a).getLast? = some ']' := by
  obtain ⟨front, hfront⟩ : ∃ front, encodeFields .leMetaEvent (frame a).payload =
      front ++ [']'] := ⟨_, rfl⟩
  rw [encodeChars_eq, body, hfront, ← List.cons_append, ← List.append_assoc, List.getLast?_concat]

/-- Lines of a workable tag are never skipped. -/
theorem decodeChars?_encodeChars {tag : List Char} (h : Workable tag) (a : Advertisement) :
    decodeChars? tag (encodeChars tag a) = some (.ok (frame a)) := by
  refine decodeChars?_of_decodeChars (decodeChars_encodeChars h a) ?_
  rw [trim_encodeChars h, getLast?_encodeChars]

/-- What a report says about the advertisement it stands for. -/
structure Describes (r : Report) (a : Advertisement) : Prop where
  address : r.address = a.address
  addressType : r.addressType = a.addressType
  rssi : r.rssi = a.rssi
  type : r.type = AdvType.ofCode a.type.code
  code : r.type.code = a.type.code
  data : r.data = a.payload.take 243
  /-- Entries follow on each other from the first byte, so `endingBy` counts
  the bytes of the payload. -/
  entries : ∃ tail,
    a.payload = (AdStructure.parse a.payload).flatMap AdStructure.encode ++ tail
  structures :
    AdStructure.parse r.data = AdStructure.endingBy 243 (AdStructure.parse a.payload)
  fields : a.payload.length ≤ 243 → r.fields = a.fields

theorem describes_canonical (a : Advertisement) : Describes a.report.canonical a where
  address := rfl
  addressType := rfl
  rssi := rfl
  type := rfl
  code := AdvType.code_ofCode a.type.code
  data := rfl
  entries := AdStructure.exists_parse_append a.payload
  structures := AdStructure.parse_take a.payload 243
  fields := by
    intro h
    have hdata : a.report.canonical.data = a.payload := List.take_of_length_le h
    rw [Report.fields, hdata]
    rfl

/-- The frame of a line, with the one report in it. -/
structure Carries (f : Frame) (a : Advertisement) : Prop where
  type : f.type = .leMetaEvent
  declared : f.declaredLength.toNat = f.payload.length
  length : f.payload.length = 12 + min a.payload.length 243
  length_le : f.payload.length ≤ 255
  report : ∃ r, f.leMetaEvent = .ok ⟨Report.subeventCode, [r], none⟩ ∧ Describes r a

theorem leMetaEvent_frame (a : Advertisement) :
    (frame a).leMetaEvent = .ok ⟨Report.subeventCode, [a.report.canonical], none⟩ := by
  have hdata : ∀ r ∈ [a.report], r.data.length < 256 := by
    rw [List.forall_mem_singleton, Advertisement.report, List.length_take]
    exact Nat.lt_of_le_of_lt (Nat.min_le_left _ _) (by decide)
  exact Frame.leMetaEvent_encodeAll _ [a.report] (by simp) hdata

theorem carries_frame (a : Advertisement) : Carries (frame a) a where
  type := rfl
  declared := UInt16.toNat_ofNat_of_lt'
    (Nat.lt_trans (length_payload_frame_lt a) (by decide))
  length := length_payload_frame a
  length_le := Nat.le_of_lt_succ (length_payload_frame_lt a)
  report := ⟨_, leMetaEvent_frame a, describes_canonical a⟩

/-- Writing and reading back works for exactly the tags without a multiplication
sign and without a blank in front, and loses nothing but the end of a payload
that is too long for one event. -/
theorem decode_encode_workable (tag : String) (a : Advertisement) :
    ((∃ f, decode tag (encode tag a) = .ok f) ↔ Workable tag.toList) ∧
    (¬ Workable tag.toList → decode tag (encode tag a) = .error .missingTag) ∧
    ∀ f, decode tag (encode tag a) = .ok f → Carries f a := by
  have hchars : decode tag (encode tag a) =
      decodeChars tag.toList (encodeChars tag.toList a) := by
    rw [decode, encode, String.toList_ofList]
  rw [hchars]
  by_cases h : Workable tag.toList
  · rw [decodeChars_encodeChars h]
    refine ⟨⟨fun _ => h, fun _ => ⟨_, rfl⟩⟩, fun hnot => absurd h hnot, ?_⟩
    rintro f ⟨⟩
    exact carries_frame a
  · rw [decodeChars_of_not_workable h]
    refine ⟨⟨?_, fun hw => absurd hw h⟩, fun _ => rfl, ?_⟩
    · rintro ⟨f, ⟨⟩⟩
    · rintro f ⟨⟩

end BleCapture.Line
