import BleCapture.Proofs.Line.Decode

/-!
# Lines as consoles show them

A frame is read from every line that shows it: its fields in any order, blanks
around every mark, numbers with or without their `0x`, digits of either case,
and any text in front of the tag and behind the last field.
-/

namespace BleCapture.Line

open Text (Blank FirstAt Numeral isBlank)
open Text.Hex (Spells)

-- ---------------------------------------------------------------------------
-- Multiplication signs
-- ---------------------------------------------------------------------------

/-- The text with every multiplication sign read as x. -/
def readSigns (s : List Char) : List Char :=
  s.map fun c => if c = multiplicationSign then 'x' else c

theorem normalize_eq (line : List Char) : normalize line = readSigns (Text.trim line) := rfl

@[simp] theorem length_readSigns (s : List Char) : (readSigns s).length = s.length :=
  List.length_map _

@[simp] theorem readSigns_append (s t : List Char) :
    readSigns (s ++ t) = readSigns s ++ readSigns t :=
  List.map_append

theorem readSigns_cons {c : Char} (h : c ≠ multiplicationSign) (s : List Char) :
    readSigns (c :: s) = c :: readSigns s := by
  rw [readSigns, List.map_cons, if_neg h]
  rfl

theorem readSigns_of_not_mem {s : List Char} (h : multiplicationSign ∉ s) : readSigns s = s := by
  refine (List.map_congr_left fun c hc => if_neg ?_).trans (List.map_id' s)
  rintro rfl
  exact h hc

theorem head_normalize (line : List Char) : (normalize line).head?.any isBlank = false := by
  have hhead := Text.head_trim line
  rw [normalize_eq]
  cases htrim : Text.trim line with
  | nil => rfl
  | cons c rest =>
    rw [htrim] at hhead
    have hc : isBlank (if c = multiplicationSign then 'x' else c) = false := by
      split
      · decide
      · exact hhead
    exact hc

theorem readSigns_of_blank {s : List Char} (h : Blank s) : readSigns s = s :=
  readSigns_of_not_mem (Text.not_mem_of_blank h (by decide))

-- ---------------------------------------------------------------------------
-- Values
-- ---------------------------------------------------------------------------

/-- What may stand in front of the digits of a number. -/
def numberMarks : List (List Char) := [[], ['0', 'x'], ['0', 'X'], ['0', multiplicationSign]]

/-- A hex number as consoles show it. -/
def NumberText (n : Nat) (s : List Char) : Prop :=
  ∃ mark ∈ numberMarks, ∃ digits, Numeral 16 digits n ∧ s = mark ++ digits

/-- What a field of the frame says. -/
def ValueText (type : PacketType) (payload : List UInt8) : FieldName → List Char → Prop
  | .packetType, s => NumberText type.code.toNat s
  | .length, s => NumberText payload.length s
  | .data, s => Spells s payload

/-- A hex digit, or the x in front of some. -/
def ValueChar (c : Char) : Prop := c = 'x' ∨ c = 'X' ∨ ∃ v, Text.digitValue? 16 c = some v

theorem ValueChar.graphic {c : Char} (h : ValueChar c) : Text.IsGraphic c := by
  rcases h with rfl | rfl | ⟨v, hv⟩
  · decide
  · decide
  · exact Text.graphic_of_digitValue? hv

theorem not_valueChar {c : Char} (hx : c ≠ 'x') (hX : c ≠ 'X')
    (h : Text.digitValue? 16 c = none) : ¬ ValueChar c := by
  rintro (rfl | rfl | ⟨v, hv⟩)
  · exact hx rfl
  · exact hX rfl
  · rw [h] at hv
    cases hv

theorem not_mem_of_digits {s : List Char} (h : ∀ c ∈ s, ∃ v, Text.digitValue? 16 c = some v)
    {c : Char} (hc : Text.digitValue? 16 c = none) : c ∉ s := by
  intro hmem
  obtain ⟨v, hv⟩ := h c hmem
  rw [hc] at hv
  cases hv

theorem readSigns_of_numeral {digits : List Char} {n : Nat} (h : Numeral 16 digits n) :
    readSigns digits = digits :=
  readSigns_of_not_mem (not_mem_of_digits h.exists_digit (by decide))

theorem valueChar_of_numberText {n : Nat} {s : List Char} (h : NumberText n s) :
    ∀ c ∈ readSigns s, ValueChar c := by
  obtain ⟨mark, hmark, digits, hdigits, rfl⟩ := h
  have hfront : ∀ c ∈ readSigns mark, ValueChar c := by
    have key : numberMarks.all (fun mark =>
        (readSigns mark).all fun c => c = 'x' ∨ c = 'X' ∨ c = '0') = true := by decide
    intro c hc
    rcases of_decide_eq_true (List.all_eq_true.mp (List.all_eq_true.mp key mark hmark) c hc) with
      rfl | rfl | rfl
    · exact .inl rfl
    · exact .inr (.inl rfl)
    · exact .inr (.inr ⟨0, by decide⟩)
  rw [readSigns_append, readSigns_of_numeral hdigits, List.forall_mem_append]
  exact ⟨hfront, fun c hc => .inr (.inr (hdigits.exists_digit c hc))⟩

theorem readSigns_of_spells {s : List Char} {bytes : List UInt8} (h : Spells s bytes) :
    readSigns s = s :=
  readSigns_of_not_mem (not_mem_of_digits h.exists_digit (by decide))

theorem ValueText.valueChar {type : PacketType} {payload : List UInt8} {name : FieldName}
    {value : List Char} (h : ValueText type payload name value) :
    ∀ c ∈ readSigns value, ValueChar c := by
  cases name with
  | packetType => exact valueChar_of_numberText h
  | length => exact valueChar_of_numberText h
  | data =>
    have hspells : Spells value payload := h
    rw [readSigns_of_spells hspells]
    exact fun c hc => .inr (.inr (hspells.exists_digit c hc))

theorem hexNumber?_of_numberText {bound n : Nat} {s : List Char} (h : NumberText n s)
    (hbound : n < bound) : hexNumber? bound (readSigns s) = some n := by
  obtain ⟨mark, hmark, digits, hdigits, rfl⟩ := h
  have hread := Text.readNumber?_of_numeral hdigits hbound
  rw [readSigns_append, readSigns_of_numeral hdigits]
  simp only [numberMarks, List.mem_cons, List.not_mem_nil, or_false] at hmark
  rcases hmark with rfl | rfl | rfl | rfl
  -- Digits alone do not look as if they had a mark.
  · rw [← hread]
    change hexNumber? bound digits = _
    unfold hexNumber?
    split
    · exact absurd (by simp) (not_mem_of_digits hdigits.exists_digit (c := 'x') (by decide))
    · exact absurd (by simp) (not_mem_of_digits hdigits.exists_digit (c := 'X') (by decide))
    · rfl
  · exact hread
  · exact hread
  · exact hread

-- ---------------------------------------------------------------------------
-- Fields
-- ---------------------------------------------------------------------------

/-- What separates fields: blanks and commas. -/
def IsGap (s : List Char) : Prop := ∀ c ∈ s, isBlank c = true ∨ c = ','

instance : DecidablePred IsGap := fun s =>
  decidable_of_iff (s.all (fun c => decide (isBlank c = true ∨ c = ',')) = true) (by simp [IsGap])

/-- The blanks of one field: the gap in front of it, around its equals sign, and
inside its brackets. -/
structure Spacing where
  gap : List Char
  beforeSign : List Char
  afterSign : List Char
  opening : List Char
  closing : List Char
  isGap_gap : IsGap gap
  blank_beforeSign : Blank beforeSign
  blank_afterSign : Blank afterSign
  blank_opening : Blank opening
  blank_closing : Blank closing

theorem exists_letter (name : FieldName) :
    ∃ c ∈ name.text.toList, c ≠ 'x' ∧ c ≠ 'X' ∧ Text.digitValue? 16 c = none := by
  cases name with
  | packetType => exact ⟨'k', by decide, by decide, by decide, by decide⟩
  | length => exact ⟨'l', by decide, by decide, by decide, by decide⟩
  | data => exact ⟨'t', by decide, by decide, by decide, by decide⟩

theorem exists_letter_of_ne {name other : FieldName} (h : name ≠ other) :
    ∃ c ∈ name.text.toList, c ∉ other.text.toList := by
  cases name with
  | packetType => exact ⟨'k', by decide, by cases other <;> first | exact absurd rfl h | decide⟩
  | length => exact ⟨'l', by decide, by cases other <;> first | exact absurd rfl h | decide⟩
  | data => exact ⟨'d', by decide, by cases other <;> first | exact absurd rfl h | decide⟩

namespace Spacing

/-- One blank wherever blanks may stand. -/
def wide : Spacing :=
  ⟨[' '], [' '], [' '], [' '], [' '], by decide, by decide, by decide, by decide, by decide⟩

/-- No blanks but those in front. -/
def tight (gap : List Char) (h : IsGap gap) : Spacing :=
  ⟨gap, [], [], [], [], h, by decide, by decide, by decide, by decide⟩

variable (l : Spacing)

def write (name : FieldName) (value : List Char) : List Char :=
  l.gap ++ name.text.toList ++
    (l.beforeSign ++ '=' :: (l.afterSign ++ '[' :: (l.opening ++ value ++ l.closing ++ [']'])))

theorem write_append (name : FieldName) (value rest : List Char) :
    l.write name value ++ rest =
      l.gap ++ (name.text.toList ++ (l.beforeSign ++ '=' ::
        (l.afterSign ++ '[' :: (l.opening ++ value ++ l.closing ++ ']' :: rest)))) := by
  simp only [write, List.append_assoc, List.cons_append, List.nil_append]

theorem tight_write (gap : List Char) (h : IsGap gap)
    (name : FieldName) (value : List Char) :
    (tight gap h).write name value = gap ++ fieldText name.text.toList value := by
  simp only [write, tight, fieldText, List.append_assoc, List.nil_append, List.append_nil,
    List.cons_append]

theorem readSigns_write (name : FieldName) (value : List Char) :
    readSigns (l.write name value) = l.write name (readSigns value) := by
  have hgap : readSigns l.gap = l.gap := by
    refine readSigns_of_not_mem fun hmem => ?_
    rcases l.isGap_gap _ hmem with h | h
    · exact absurd h (by decide)
    · exact absurd h (by decide)
  have hname : readSigns name.text.toList = name.text.toList := by cases name <;> rfl
  have hend : readSigns [']'] = [']'] := rfl
  simp only [write, readSigns_append, readSigns_cons (c := '=') (by decide),
    readSigns_cons (c := '[') (by decide), readSigns_of_blank l.blank_beforeSign,
    readSigns_of_blank l.blank_afterSign, readSigns_of_blank l.blank_opening,
    readSigns_of_blank l.blank_closing, hgap, hname, hend]

theorem trimEnd_write_append (name : FieldName) (value rest : List Char) :
    Text.trimEnd (l.write name value ++ rest) = l.write name value ++ Text.trimEnd rest := by
  obtain ⟨front, hfront⟩ : ∃ front, l.write name value = front ++ [']'] :=
    ⟨l.gap ++ name.text.toList ++
      (l.beforeSign ++ '=' :: (l.afterSign ++ '[' :: (l.opening ++ value ++ l.closing))),
      by simp only [write, List.append_assoc, List.cons_append]⟩
  rw [hfront, List.append_assoc, List.append_assoc]
  exact Text.trimEnd_append_cons front (by decide) rest

theorem field?_write (name : FieldName) {value : List Char} (h : ∀ c ∈ value, ValueChar c)
    (rest : List Char) : field? name (l.write name value ++ rest) = some value := by
  have hskip : ∀ c ∈ l.gap, c ∉ name.text.toList := fun c hc =>
    not_mem_text name ((l.isGap_gap c hc).imp_right .inl)
  have hbracket : ']' ∉ l.opening ++ value ++ l.closing := by
    simp only [List.mem_append, not_or]
    exact ⟨⟨Text.not_mem_of_blank l.blank_opening (by decide),
      fun hmem => not_valueChar (by decide) (by decide) (by decide) (h _ hmem)⟩,
      Text.not_mem_of_blank l.blank_closing (by decide)⟩
  have hvisible : Text.Visible value := Text.visible_of_graphic fun c hc => (h c hc).graphic
  rw [write_append, field?_append_left hskip,
    field?_spaced name l.blank_beforeSign l.blank_afterSign hbracket,
    Text.trim_blank_visible l.blank_opening hvisible l.blank_closing]

/-- A field is written without the names of the others. -/
theorem misses {name other : FieldName} (hne : name ≠ other) {value : List Char}
    (h : ∀ c ∈ value, ValueChar c) :
    Misses name.text.toList (l.gap ++ other.text.toList ++ l.beforeSign)
      (l.afterSign ++ '[' :: (l.opening ++ value ++ l.closing)) where
  marks := mark_not_mem_text name
  name := by
    obtain ⟨c, hc, hother⟩ := exists_letter_of_ne hne
    intro hfound
    have hmem := hfound.subset hc
    simp only [List.mem_append] at hmem
    rcases hmem with (hmem | hmem) | hmem
    · exact not_mem_text name ((l.isGap_gap c hmem).imp_right .inl) hc
    · exact hother hmem
    · exact not_mem_text name (.inl (l.blank_beforeSign c hmem)) hc
  value := by
    obtain ⟨c, hc, hx, hX, hdigit⟩ := exists_letter name
    intro hfound
    have hmem := hfound.subset hc
    simp only [List.mem_append, List.mem_cons] at hmem
    rcases hmem with hmem | rfl | (hmem | hmem) | hmem
    · exact not_mem_text name (.inl (l.blank_afterSign c hmem)) hc
    · exact mark_not_mem_text name '[' (by simp) hc
    · exact not_mem_text name (.inl (l.blank_opening c hmem)) hc
    · exact not_valueChar hx hX hdigit (h c hmem)
    · exact not_mem_text name (.inl (l.blank_closing c hmem)) hc

theorem field?_write_of_ne {name other : FieldName} (hne : name ≠ other) {value : List Char}
    (h : ∀ c ∈ value, ValueChar c) (rest : List Char) :
    field? name (l.write other value ++ rest) = field? name rest := by
  have hskip := field?_of_misses (l.misses hne h) rest
  rw [write_append, ← hskip]
  simp only [List.append_assoc, List.cons_append]

end Spacing

/-- The fields of a frame in the given order, with any text behind them. -/
inductive Written (type : PacketType) (payload : List UInt8) : List FieldName → List Char → Prop
  | tail (s : List Char) : Written type payload [] s
  | field {name : FieldName} {names : List FieldName} {value rest : List Char} (l : Spacing)
      (hvalue : ValueText type payload name value) (hrest : Written type payload names rest) :
      Written type payload (name :: names) (l.write name value ++ rest)

namespace Written

variable {type : PacketType} {payload : List UInt8} {names : List FieldName} {s : List Char}

theorem trimEnd (h : Written type payload names s) :
    Written type payload names (Text.trimEnd s) := by
  induction h with
  | tail => exact .tail _
  | field l hvalue _ ih =>
    rw [l.trimEnd_write_append]
    exact .field l hvalue ih

theorem exists_visible (h : Written type payload names s) (hne : names ≠ []) :
    ∃ c ∈ s, isBlank c = false := by
  cases h with
  | tail => exact absurd rfl hne
  | field l _ _ => exact ⟨']', by simp [Spacing.write], by decide⟩

/-- Each field is found, wherever it stands among the others. -/
theorem exists_field? (h : Written type payload names s) (hnodup : names.Nodup)
    {name : FieldName} (hname : name ∈ names) :
    ∃ value, ValueText type payload name value ∧
      field? name (readSigns s) = some (readSigns value) := by
  induction h with
  | tail => cases hname
  | @field other names value rest l hvalue _ ih =>
    rw [readSigns_append, l.readSigns_write]
    obtain ⟨hother, hnodup⟩ := List.nodup_cons.mp hnodup
    rcases List.mem_cons.mp hname with rfl | hmem
    · exact ⟨value, hvalue, l.field?_write name hvalue.valueChar _⟩
    · have hne : name ≠ other := by
        rintro rfl
        exact hother hmem
      rw [l.field?_write_of_ne hne hvalue.valueChar]
      exact ih hnodup hmem

theorem fieldsOf (h : Written type payload names s)
    (horder : names.Perm [.packetType, .length, .data])
    (hlength : payload.length ≤ min type.maxPayload 65535) :
    FieldsOf (readSigns s) (Frame.ofPayload type payload) := by
  have hnodup : names.Nodup := horder.nodup_iff.mpr (by decide)
  have hall : ∀ name, name ∈ names := fun name => horder.mem_iff.mpr (by cases name <;> decide)
  have hlt : payload.length < 65536 := by omega
  obtain ⟨code, hcode, hcodeField⟩ := h.exists_field? hnodup (hall .packetType)
  obtain ⟨declared, hdeclared, hdeclaredField⟩ := h.exists_field? hnodup (hall .length)
  obtain ⟨digits, hdigits, hdigitsField⟩ := h.exists_field? hnodup (hall .data)
  have hspells : Spells digits payload := hdigits
  rw [readSigns_of_spells hspells] at hdigitsField
  exact ⟨⟨_, hcodeField, hexNumber?_of_numberText hcode type.code.toNat_lt_size⟩,
    ⟨_, hdeclaredField, hexNumber?_of_numberText hdeclared hlt⟩, ⟨_, hdigitsField, hspells⟩,
    Nat.le_trans hlength (Nat.min_le_left _ _), UInt16.toNat_ofNat_of_lt' hlt⟩

end Written

-- ---------------------------------------------------------------------------
-- Lines
-- ---------------------------------------------------------------------------

/-- A line that shows a frame: blanks, console text, the tag, and the fields
behind it. -/
structure Rendering (tag : List Char) (type : PacketType) (payload : List UInt8) where
  lead : List Char
  console : List Char
  gap : List Char
  colon : List Char
  names : List FieldName
  fields : List Char
  blank_lead : Blank lead
  blank_gap : Blank gap
  mem_colon : colon ∈ [[], [':']]
  order : names.Perm [.packetType, .length, .data]
  written : Written type payload names fields

namespace Rendering

variable {tag : List Char} {type : PacketType} {payload : List UInt8}
variable (r : Rendering tag type payload)

/-- What stands behind the tag. -/
def behind : List Char := r.gap ++ r.colon ++ r.fields

def text : List Char := r.lead ++ r.console ++ tag ++ r.behind

/-- In the line as it is searched, the first tag is the one behind the console
text. The tag has no multiplication sign then, since that line has none. -/
def TagFirst : Prop :=
  ∃ rest, FirstAt tag (normalize r.text) (readSigns (Text.trimStart r.console)) rest

theorem exists_visible_fields : ∃ c ∈ r.fields, isBlank c = false :=
  r.written.exists_visible fun hnil => by simpa [hnil] using r.order.length_eq

theorem exists_visible_behind : ∃ c ∈ r.behind, isBlank c = false := by
  obtain ⟨c, hmem, hc⟩ := r.exists_visible_fields
  exact ⟨c, List.mem_append_right _ hmem, hc⟩

theorem trimStart_text :
    Text.trimStart r.text = Text.trimStart (Text.trimStart r.console ++ tag ++ r.behind) := by
  rw [text, List.append_assoc, List.append_assoc, Text.trimStart_append_blank r.blank_lead,
    Text.trimStart_append, List.append_assoc]

/-- The tag that is found has kept its first character, which is no blank. -/
theorem isBlank_of_firstAt {c : Char} {more rest : List Char}
    (h : FirstAt tag (normalize r.text) (readSigns (Text.trimStart r.console)) rest)
    (hfront : Text.trimStart r.console ++ tag = c :: more) : isBlank c = false := by
  cases hconsole : Text.trimStart r.console with
  | nil =>
    have hhead := head_normalize r.text
    rw [hconsole, List.nil_append] at hfront
    rw [h.eq, hconsole, hfront] at hhead
    exact hhead
  | cons d ds =>
    have hhead := Text.head_trimStart r.console
    rw [hconsole, List.cons_append] at hfront
    rw [hconsole, (List.cons.inj hfront).1] at hhead
    exact hhead

/-- Behind the first tag nothing is lost but blanks. -/
theorem exists_blank_append_rest {rest : List Char}
    (h : FirstAt tag (normalize r.text) (readSigns (Text.trimStart r.console)) rest) :
    ∃ b, Blank b ∧ readSigns (Text.trimEnd r.behind) = b ++ rest := by
  have heq := h.eq
  rw [normalize_eq, Text.trim, r.trimStart_text] at heq
  cases hfront : Text.trimStart r.console ++ tag with
  -- Only an empty tag with no console text lets blanks behind the tag be trimmed.
  | nil =>
    obtain ⟨b, hb, hbehind⟩ := Text.exists_blank_append_trimStart r.behind
    have hvisible : ∃ c ∈ Text.trimStart r.behind, isBlank c = false := by
      obtain ⟨c, hmem, hc⟩ := r.exists_visible_behind
      rw [hbehind, List.mem_append] at hmem
      exact ⟨c, hmem.resolve_left (Text.not_mem_of_blank hb hc), hc⟩
    have hbefore : readSigns (Text.trimStart r.console) ++ tag = [] := by
      obtain ⟨hconsole, htag⟩ := List.append_eq_nil_iff.mp hfront
      simp only [hconsole, htag]
      rfl
    rw [hfront, hbefore, List.nil_append, List.nil_append] at heq
    refine ⟨b, hb, ?_⟩
    calc readSigns (Text.trimEnd r.behind)
        = readSigns (Text.trimEnd (b ++ Text.trimStart r.behind)) := by rw [← hbehind]
      _ = readSigns b ++ readSigns (Text.trimEnd (Text.trimStart r.behind)) := by
          rw [Text.trimEnd_append hvisible, readSigns_append]
      _ = b ++ rest := by
          rw [readSigns_of_blank hb]
          exact congrArg (b ++ ·) heq
  | cons c more =>
    have hc := r.isBlank_of_firstAt h hfront
    have hlength : (readSigns (c :: more)).length =
        (readSigns (Text.trimStart r.console) ++ tag).length := by
      rw [← hfront]
      simp
    rw [hfront, List.cons_append, Text.trimStart_of_head (s := c :: (more ++ r.behind)) hc,
      ← List.cons_append, Text.trimEnd_append r.exists_visible_behind, readSigns_append] at heq
    exact ⟨[], by simp [Blank], (List.append_inj heq hlength).2⟩

theorem blank_or_colon : ∀ c ∈ r.gap ++ r.colon, isBlank c = true ∨ c = ':' := by
  intro c hc
  rcases List.mem_append.mp hc with hc | hc
  · exact .inl (r.blank_gap c hc)
  · have hcolon := r.mem_colon
    simp only [List.mem_cons, List.not_mem_nil, or_false] at hcolon
    rcases hcolon with hcolon | hcolon
    · rw [hcolon] at hc
      cases hc
    · rw [hcolon] at hc
      exact .inr (List.mem_singleton.mp hc)

theorem readSigns_trimEnd_behind :
    readSigns (Text.trimEnd r.behind) = r.gap ++ r.colon ++ readSigns (Text.trimEnd r.fields) := by
  have hsign : multiplicationSign ∉ r.gap ++ r.colon := fun hmem => by
    rcases r.blank_or_colon _ hmem with h | h
    · exact absurd h (by decide)
    · exact absurd h (by decide)
  rw [behind, Text.trimEnd_append r.exists_visible_fields, readSigns_append,
    readSigns_of_not_mem hsign]

theorem decodeChars_text (hfirst : r.TagFirst)
    (hlength : payload.length ≤ min type.maxPayload 65535) :
    decodeChars tag r.text = .ok (Frame.ofPayload type payload) := by
  obtain ⟨rest, hat⟩ := hfirst
  obtain ⟨b, hb, hrest⟩ := r.exists_blank_append_rest hat
  have hread : decodeFields rest = .ok (Frame.ofPayload type payload) :=
    calc decodeFields rest
        = decodeFields (b ++ rest) :=
          (decodeFields_append_left (fun c hc => .inl (hb c hc)) rest).symm
      _ = decodeFields (r.gap ++ r.colon ++ readSigns (Text.trimEnd r.fields)) := by
          rw [← hrest, r.readSigns_trimEnd_behind]
      _ = decodeFields (readSigns (Text.trimEnd r.fields)) :=
          decodeFields_append_left r.blank_or_colon _
      _ = .ok (Frame.ofPayload type payload) :=
          decodeFields_eq_ok_iff.mpr (r.written.trimEnd.fieldsOf r.order hlength)
  exact decodeChars_eq_ok_iff.mpr ⟨_, rest, hat, decodeFields_eq_ok_iff.mp hread⟩

end Rendering

/-- A frame within the limits is read from every line that shows it. -/
theorem decode_rendering {tag : String} {type : PacketType} {payload : List UInt8}
    (r : Rendering tag.toList type payload) (hfirst : r.TagFirst)
    (hlength : payload.length ≤ min type.maxPayload 65535) :
    ∃ f, decode tag (String.ofList r.text) = .ok f ∧
      f.type = type ∧ f.declaredLength.toNat = payload.length ∧ f.payload = payload := by
  have hlt : payload.length < 65536 := by omega
  refine ⟨Frame.ofPayload type payload, ?_, rfl, UInt16.toNat_ofNat_of_lt' hlt, rfl⟩
  rw [decode, String.toList_ofList]
  exact r.decodeChars_text hfirst hlength

/-- Console text in front, the fields in another order and spaced in two ways,
a number with a multiplication sign, digits of either case, and text behind. -/
def shownThreeBytes : Rendering defaultTag.toList .leMetaEvent [0x02, 0x01, 0xFF] where
  lead := ['\t']
  console := "I (512) [hci]: ".toList
  gap := [' ']
  colon := [':']
  names := [.length, .data, .packetType]
  fields := _
  blank_lead := by decide
  blank_gap := by decide
  mem_colon := by decide
  order := by decide
  written :=
    have hthree : Numeral 16 (['0'] ++ ['0'] ++ ['3']) ((0 * 16 + 0) * 16 + 3) :=
      .more (.more (.digit (by decide)) (by decide)) (by decide)
    have hfour : Numeral 16 (['0'] ++ ['4']) (0 * 16 + 4) :=
      .more (.digit (by decide)) (by decide)
    have hlength : ValueText .leMetaEvent [0x02, 0x01, 0xFF] .length "0×003".toList :=
      ⟨['0', multiplicationSign], by decide, _, hthree, by decide⟩
    have hdata : ValueText .leMetaEvent [0x02, 0x01, 0xFF] .data "0201Ff".toList :=
      Text.Hex.spells_of_decode rfl
    have htype : ValueText .leMetaEvent [0x02, 0x01, 0xFF] .packetType "04".toList :=
      ⟨[], by decide, _, hfour, by decide⟩
    .field .wide hlength <| .field (.tight [' ', ','] (by decide)) hdata <|
      .field .wide htype (.tail " end ".toList)

theorem decode_rendering_three_bytes :
    let line :=
      "\tI (512) [hci]: [btsnoop] : len = [ 0×003 ] ,data=[0201Ff] pkt_type = [ 04 ] end "
    ∃ f, decode defaultTag line = .ok f ∧
      f.type = .leMetaEvent ∧ f.declaredLength.toNat = 3 ∧ f.payload = [0x02, 0x01, 0xFF] := by
  intro line
  have hline : String.ofList shownThreeBytes.text = line := by decide +kernel
  have hnormal : normalize shownThreeBytes.text =
      readSigns (Text.trimStart shownThreeBytes.console) ++ defaultTag.toList ++
        readSigns (Text.trimEnd shownThreeBytes.behind) := by decide +kernel
  have hfirst : shownThreeBytes.TagFirst := by
    refine ⟨readSigns (Text.trimEnd shownThreeBytes.behind), ?_⟩
    rw [hnormal]
    exact Text.firstAt_of_after? (by decide +kernel)
  rw [← hline]
  exact decode_rendering shownThreeBytes hfirst (by decide)

end BleCapture.Line
