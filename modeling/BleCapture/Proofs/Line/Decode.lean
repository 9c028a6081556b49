import BleCapture.Line.Decode
import BleCapture.Proofs.Except
import BleCapture.Proofs.Hci.Frame
import BleCapture.Proofs.Line.Field
import BleCapture.Proofs.Text.Hex

/-!
# Lines that are read

What a line says when it is read as a frame: its first fields behind the first
tag give packet type, length and data, and they agree with each other. Looking
at a line before it is read drops no frame but one in front of a stop marker.
-/

namespace BleCapture.Line

open Text (FirstAt isBlank)
open Text.Hex (Spells)

-- ---------------------------------------------------------------------------
-- Fields of a frame
-- ---------------------------------------------------------------------------

theorem require_eq_ok {name : FieldName} {s value : List Char} :
    require name s = .ok value ↔ field? name s = some value := by
  unfold require
  cases field? name s <;> simp

theorem requireNumber_eq_ok {name : FieldName} {bound n : Nat} {s : List Char} :
    requireNumber name bound s = .ok n ↔
      ∃ value, field? name s = some value ∧ hexNumber? bound value = some n := by
  simp only [requireNumber, bind_eq_ok, require_eq_ok]
  refine exists_congr fun value => and_congr_right fun _ => ?_
  cases hexNumber? bound value <;> simp [pure, Except.pure, throw, throwThe, MonadExceptOf.throw]

theorem hexNumber?_lt {bound n : Nat} {s : List Char} (hbound : 0 < bound)
    (h : hexNumber? bound s = some n) : n < bound :=
  Text.readNumber?_lt hbound h

/-- The fields in `s` are those of the frame. -/
structure FieldsOf (s : List Char) (f : Frame) : Prop where
  packetType : ∃ value, field? .packetType s = some value ∧
    hexNumber? 256 value = some f.type.code.toNat
  length : ∃ value, field? .length s = some value ∧
    hexNumber? 65536 value = some f.payload.length
  data : ∃ value, field? .data s = some value ∧ Spells value f.payload
  length_le : f.payload.length ≤ f.type.maxPayload
  declared : f.declaredLength.toNat = f.payload.length

theorem fieldsOf_of_decodeFields {s : List Char} {f : Frame} (h : decodeFields s = .ok f) :
    FieldsOf s f := by
  simp only [decodeFields, bind_eq_ok, requireNumber_eq_ok] at h
  obtain ⟨code, ⟨codeText, hcodeField, hcode⟩, h⟩ := h
  cases htype : PacketType.ofCode? (UInt8.ofNat code) with
  | none =>
    rw [htype] at h
    cases h
  | some type =>
    simp only [htype, bind_eq_ok, requireNumber_eq_ok, require_eq_ok] at h
    obtain ⟨declared, ⟨lengthText, hlengthField, hlength⟩, digits, hdata, h⟩ := h
    have hcodeNat : code = type.code.toNat := by
      rw [← PacketType.ofCode?_eq_some_iff.mp htype,
        UInt8.toNat_ofNat_of_lt' (hexNumber?_lt (by decide) hcode)]
    rw [hcodeNat] at hcode
    cases hpayload : Text.Hex.decode digits with
    | error cause =>
      rw [hpayload] at h
      cases h
    | ok payload =>
      simp only [hpayload] at h
      split at h
      · cases h
      · rename_i hdeclared
        split at h
        · cases h
        · rename_i hmax
          obtain rfl : _ = f := Except.ok.inj h
          obtain rfl : declared = payload.length := Decidable.not_not.mp hdeclared
          exact ⟨⟨codeText, hcodeField, hcode⟩, ⟨lengthText, hlengthField, hlength⟩,
            ⟨digits, hdata, Text.Hex.spells_of_decode hpayload⟩, Nat.not_lt.mp hmax,
            UInt16.toNat_ofNat_of_lt' (hexNumber?_lt (by decide) hlength)⟩

theorem decodeFields_of_fieldsOf {s : List Char} {f : Frame} (h : FieldsOf s f) :
    decodeFields s = .ok f := by
  obtain ⟨digits, hdigits, hspells⟩ := h.data
  have hcode := requireNumber_eq_ok.mpr h.packetType
  have hlength := requireNumber_eq_ok.mpr h.length
  have hdata := require_eq_ok.mpr hdigits
  have htype : PacketType.ofCode? (UInt8.ofNat f.type.code.toNat) = some f.type := by
    rw [UInt8.ofNat_toNat]
    exact PacketType.ofCode?_eq_some_iff.mpr rfl
  have hpayload := Text.Hex.decode_of_spells hspells
  have hdeclared : UInt16.ofNat f.payload.length = f.declaredLength := by
    rw [← h.declared, UInt16.ofNat_toNat]
  have hmax : ¬ f.type.maxPayload < f.payload.length := Nat.not_lt.mpr h.length_le
  simp only [decodeFields, hcode, hlength, hdata, htype, hpayload, hdeclared, hmax, bind,
    Except.bind, ne_eq, not_true_eq_false, if_false]
  rfl

/-- Reading fields gives the frame they are those of, and no other. -/
theorem decodeFields_eq_ok_iff {s : List Char} {f : Frame} :
    decodeFields s = .ok f ↔ FieldsOf s f :=
  ⟨fieldsOf_of_decodeFields, decodeFields_of_fieldsOf⟩

-- ---------------------------------------------------------------------------
-- Between tag and fields
-- ---------------------------------------------------------------------------

theorem not_mem_text (name : FieldName) {c : Char} (h : isBlank c = true ∨ c = ',' ∨ c = ':') :
    c ∉ name.text.toList := by
  have key : name.text.toList.all (fun d => !isBlank d && d != ',' && d != ':') = true := by
    cases name <;> decide
  intro hmem
  have hc := List.all_eq_true.mp key c hmem
  rcases h with h | rfl | rfl
  · simp [h] at hc
  · simp at hc
  · simp at hc

theorem exists_append_afterColon (s : List Char) :
    ∃ u, s = u ++ afterColon s ∧ ∀ c ∈ u, isBlank c = true ∨ c = ':' := by
  obtain ⟨b, hb, hs⟩ := Text.exists_blank_append_trimStart s
  unfold afterColon
  split
  · rename_i rest hcolon
    refine ⟨b ++ [':'], ?_, ?_⟩
    · rw [hcolon] at hs
      rw [List.append_assoc]
      exact hs
    · intro c hc
      rcases List.mem_append.mp hc with hc | hc
      · exact .inl (hb c hc)
      · exact .inr (List.mem_singleton.mp hc)
  · exact ⟨b, hs, fun c hc => .inl (hb c hc)⟩

/-- No name begins in the blanks or the colon behind a tag. -/
theorem decodeFields_append_left {u : List Char} (h : ∀ c ∈ u, isBlank c = true ∨ c = ':')
    (s : List Char) : decodeFields (u ++ s) = decodeFields s := by
  have hfield : ∀ name, field? name (u ++ s) = field? name s := fun name =>
    field?_append_left (fun c hc => not_mem_text name ((h c hc).imp_right .inr)) s
  simp only [decodeFields, requireNumber, require, hfield]

theorem decodeFields_afterColon (s : List Char) : decodeFields (afterColon s) = decodeFields s := by
  obtain ⟨u, hs, hu⟩ := exists_append_afterColon s
  have hleft := decodeFields_append_left hu (afterColon s)
  rwa [← hs, eq_comm] at hleft

theorem decodeChars_eq_ok_iff {tag line : List Char} {f : Frame} :
    decodeChars tag line = .ok f ↔
      ∃ before rest, FirstAt tag (normalize line) before rest ∧ FieldsOf rest f := by
  unfold decodeChars
  constructor
  · intro h
    split at h
    · cases h
    · rename_i rest hafter
      obtain ⟨before, hat⟩ := Text.after?_eq_some_iff.mp hafter
      rw [decodeFields_afterColon] at h
      exact ⟨before, rest, hat, decodeFields_eq_ok_iff.mp h⟩
  · rintro ⟨before, rest, hat, hfields⟩
    rw [Text.after?_eq_some_iff.mpr ⟨before, hat⟩]
    dsimp only
    rw [decodeFields_afterColon]
    exact decodeFields_eq_ok_iff.mpr hfields

-- ---------------------------------------------------------------------------
-- Lines that look like frames
-- ---------------------------------------------------------------------------

theorem decodeChars_trim (tag line : List Char) :
    decodeChars tag (Text.trim line) = decodeChars tag line := by
  simp only [decodeChars, normalize, Text.trim_trim]

/-- Where a line without multiplication signs has text without an x, the line
had it before. -/
theorem infix_of_infix_normalize {needle line : List Char} (hx : 'x' ∉ needle)
    (h : needle <:+: normalize line) : needle <:+: Text.trim line := by
  obtain ⟨front, back, hline⟩ := h
  obtain ⟨left, back', htrim, hleft, -⟩ := List.map_eq_append_iff.mp hline.symm
  obtain ⟨front', middle, rfl, -, hmiddle⟩ := List.map_eq_append_iff.mp hleft
  have hsame : middle = needle := by
    rw [← hmiddle, eq_comm]
    refine (List.map_congr_left fun c hc => ?_).trans (List.map_id' middle)
    split
    · rename_i hsign
      apply absurd _ hx
      rw [← hmiddle]
      exact List.mem_map.mpr ⟨c, hc, if_pos hsign⟩
    · rfl
  exact ⟨front', back', by rw [htrim, hsame]⟩

theorem infix_of_field? {name : FieldName} {s value : List Char} (h : field? name s = some value) :
    name.text.toList <:+: s := by
  obtain ⟨raw, ⟨before, b₁, b₂, rest, -, -, -, hs, -⟩, -⟩ := exists_firstField_of_field? h
  exact ⟨before, _, hs.symm⟩

/-- A line that is read as a frame names its packet type, so only the end of the
line can keep it from being looked at. -/
theorem isCandidate_of_decodeChars {tag line : List Char} {f : Frame}
    (h : decodeChars tag line = .ok f) :
    isCandidate tag line = !(":Stop".toList.isSuffixOf (Text.trim line)) := by
  obtain ⟨before, rest, hat, ⟨value, hvalue, -⟩, -⟩ := decodeChars_eq_ok_iff.mp h
  have hrest : FieldName.packetType.text.toList <:+: normalize line := by
    rw [hat.eq]
    exact (infix_of_field? hvalue).trans (List.suffix_append _ rest).isInfix
  have hfound := infix_of_infix_normalize (by decide) hrest
  have hne : (Text.trim line).isEmpty = false := by
    rw [List.isEmpty_eq_false_iff]
    intro hnil
    rw [hnil, List.infix_nil] at hfound
    exact text_ne_nil .packetType hfound
  have hoccurs := (Text.occursIn_iff _ _).mpr hfound
  simp only [isCandidate, hne, hoccurs, Bool.not_false, Bool.true_and, Bool.or_true, Bool.and_true]

/-- A stop marker ends with a letter, the last field of a line with a bracket. -/
theorem decodeChars?_of_decodeChars {tag line : List Char} {f : Frame}
    (h : decodeChars tag line = .ok f) (hend : (Text.trim line).getLast? = some ']') :
    decodeChars? tag line = some (.ok f) := by
  have hstop : ":Stop".toList.isSuffixOf (Text.trim line) = false := by
    rw [Bool.eq_false_iff, ne_eq, List.isSuffixOf_iff_suffix]
    rintro ⟨front, hfront⟩
    rw [← hfront, List.getLast?_append] at hend
    cases hend
  have hcandidate := isCandidate_of_decodeChars h
  rw [hstop] at hcandidate
  rw [decodeChars?, hcandidate, Bool.not_false, if_pos rfl, decodeChars_trim, h]

-- ---------------------------------------------------------------------------
-- Soundness
-- ---------------------------------------------------------------------------

/-- What a frame read from a line has to do with that line. -/
structure ReadFrom (tag line : List Char) (f : Frame) : Prop where
  declared : f.declaredLength.toNat = f.payload.length
  length_le : f.payload.length ≤ f.type.maxPayload
  /-- The packet holds every byte of the payload. -/
  whole : f.payload.Sublist f.toH4
  digits : ∃ before rest raw, FirstAt tag (normalize line) before rest ∧
    FirstField .data rest raw ∧ Spells (Text.trim raw) f.payload

theorem readFrom_of_decodeChars {tag line : List Char} {f : Frame}
    (h : decodeChars tag line = .ok f) : ReadFrom tag line f := by
  obtain ⟨before, rest, hat, -, -, ⟨value, hvalue, hspells⟩, hmax, hdeclared⟩ :=
    decodeChars_eq_ok_iff.mp h
  obtain ⟨raw, hraw, rfl⟩ := exists_firstField_of_field? hvalue
  exact ⟨hdeclared, hmax, Frame.payload_sublist_toH4 hmax, before, rest, raw, hat, hraw, hspells⟩

/-- A frame that is read is the one that the line spells, whole and within its
limits. The log reader gives every such frame unless a stop marker ends the
line, and gives nothing that reading the line itself does not give. -/
theorem decode_sound (tag line : String) :
    (∀ f, decode tag line = .ok f →
      ReadFrom tag.toList line.toList f ∧
        decode? tag line =
          if ":Stop".toList <:+ Text.trim line.toList then none else some (.ok f)) ∧
    ∀ result, decode? tag line = some result → result = decode tag line := by
  constructor
  · intro f h
    refine ⟨readFrom_of_decodeChars h, ?_⟩
    have hchars : decodeChars tag.toList line.toList = .ok f := h
    rw [decode?, decodeChars?, isCandidate_of_decodeChars hchars, decodeChars_trim, hchars]
    simp only [← List.isSuffixOf_iff_suffix]
    cases ":Stop".toList.isSuffixOf (Text.trim line.toList) <;> rfl
  · intro result h
    unfold decode? decodeChars? at h
    split at h
    · rw [decodeChars_trim] at h
      exact (Option.some.inj h).symm
    · cases h

/-- A frame of three bytes is read from its line, whole. With a stop marker
behind it, the same line is dropped. -/
theorem decode_sound_three_bytes :
    let line := "[btsnoop]:pkt_type=[0x04],len=[0x03],data=[0201ff]"
    let f : Frame := ⟨.leMetaEvent, 3, [0x02, 0x01, 0xFF]⟩
    (ReadFrom defaultTag.toList line.toList f ∧
      decode? defaultTag line = some (.ok f) ∧ .ok f = decode defaultTag line) ∧
    decode defaultTag (line ++ ":Stop") = .ok f ∧ decode? defaultTag (line ++ ":Stop") = none := by
  intro line f
  have hline : decode defaultTag line = .ok f := eq_ok_of_toOption (by decide +kernel)
  have hstopped : decode defaultTag (line ++ ":Stop") = .ok f :=
    eq_ok_of_toOption (by decide +kernel)
  obtain ⟨hfrom, hframe⟩ := (decode_sound defaultTag line).1 f hline
  obtain ⟨-, hnone⟩ := (decode_sound defaultTag (line ++ ":Stop")).1 f hstopped
  rw [if_neg (by decide +kernel)] at hframe
  rw [if_pos (by decide +kernel)] at hnone
  exact ⟨⟨hfrom, hframe, (decode_sound defaultTag line).2 _ hframe⟩, hstopped, hnone⟩

end BleCapture.Line
