import BleCapture.Address
import BleCapture.Proofs.Except
import BleCapture.Proofs.Text.Hex
import Mathlib.Data.List.Forall2

/-!
# Addresses as text

An address is read from exactly those texts that have six parts between colons, each of
which spells a byte. In every other text the number of parts, or else the first part that
spells no byte, decides the error. The text of an address is read back, in letters of
either case.
-/

namespace BleCapture.Address

open Text

-- ---------------------------------------------------------------------------
-- One part
-- ---------------------------------------------------------------------------

/-- A byte in two characters: two hex digits, or a plus sign and one. -/
inductive SpellsByte : List Char → UInt8 → Prop
  | digits {hi lo : Char} {h l : Nat} (hhi : HexDigit hi h) (hlo : HexDigit lo l) :
      SpellsByte [hi, lo] (UInt8.ofNat (16 * h + l))
  | plus {c : Char} {v : Nat} (hc : HexDigit c v) : SpellsByte ['+', c] (UInt8.ofNat v)

/-- What is wrong with a part that spells no byte. -/
inductive PartFault (index : Nat) (part : List Char) : ParseError → Prop
  | length (h : (Utf8.encode part).length ≠ 2) : PartFault index part (.partLength index)
  | notHex (h : (Utf8.encode part).length = 2) (hspells : ∀ b, ¬ SpellsByte part b) :
      PartFault index part (.notHex (String.ofList part))

section
variable {index : Nat} {part : List Char} {b : UInt8} {e : ParseError}

theorem graphic_of_hexDigit {c : Char} {v : Nat} (h : HexDigit c v) : IsGraphic c :=
  graphic_of_digitValue? h.digitValue?

theorem ne_colon_of_hexDigit {c : Char} {v : Nat} (h : HexDigit c v) : ':' ≠ c := by
  rintro rfl
  have hnone : digitValue? 16 ':' = none := by decide
  exact Option.some_ne_none v (h.digitValue?.symm.trans hnone)

theorem SpellsByte.graphic (h : SpellsByte part b) : ∀ c ∈ part, IsGraphic c := by
  cases h with
  | digits hhi hlo => simp [graphic_of_hexDigit hhi, graphic_of_hexDigit hlo]
  | plus hc => simp [graphic_of_hexDigit hc, show IsGraphic '+' by decide]

theorem SpellsByte.colon_not_mem (h : SpellsByte part b) : ':' ∉ part := by
  cases h with
  | digits hhi hlo => simp [ne_colon_of_hexDigit hhi, ne_colon_of_hexDigit hlo]
  | plus hc => simp [ne_colon_of_hexDigit hc]

theorem SpellsByte.length_encode (h : SpellsByte part b) : (Utf8.encode part).length = 2 := by
  rw [encode_of_ascii fun c hc => Nat.le_of_lt (h.graphic c hc).2, List.length_map]
  cases h <;> rfl

/-- Two bytes of text that are read as a number spell a byte. -/
theorem spellsByte_of_readNumber? {n : Nat} (hlength : (Utf8.encode part).length = 2)
    (h : readNumber? 16 256 part = some n) : SpellsByte part (UInt8.ofNat n) := by
  obtain ⟨-, plus, digits, rfl, hdigits⟩ := (readNumber?_eq_some_iff (by decide)).mp h
  have hascii : ∀ c ∈ plusSign plus ++ digits, c.toNat ≤ 0x7F := by
    intro c hc
    rcases List.mem_append.mp hc with hc | hc
    · cases plus with
      | true =>
        obtain rfl := List.mem_singleton.mp hc
        decide
      | false => cases hc
    · obtain ⟨v, hv⟩ := hdigits.exists_digit c hc
      exact Nat.le_trans (toNat_of_digitValue? hv).2 (by decide)
  rw [encode_of_ascii hascii, List.length_map, List.length_append] at hlength
  cases plus with
  | true =>
    obtain ⟨c, rfl⟩ := List.length_eq_one_iff.mp (Nat.add_left_cancel (n := 1) hlength)
    exact .plus (hexDigit_of_digitValue? (numeral_singleton_iff.mp hdigits))
  | false =>
    obtain ⟨hi, lo, rfl⟩ := List.length_eq_two.mp ((Nat.zero_add _).symm.trans hlength)
    obtain ⟨m, v, hm, hv, rfl⟩ := (numeral_concat_iff (List.cons_ne_nil hi [])).mp hdigits
    rw [Nat.mul_comm]
    exact .digits (hexDigit_of_digitValue? (numeral_singleton_iff.mp hm))
      (hexDigit_of_digitValue? hv)

theorem SpellsByte.readNumber? (h : SpellsByte part b) :
    ∃ n, Text.readNumber? 16 256 part = some n ∧ UInt8.ofNat n = b := by
  cases h with
  | @digits hi lo h l hhi hlo =>
    have hh := digitValue?_lt hhi.digitValue?
    have hl := digitValue?_lt hlo.digitValue?
    have hnumeral : Numeral 16 ([hi] ++ [lo]) (h * 16 + l) :=
      .more (.digit hhi.digitValue?) hlo.digitValue?
    rw [Nat.mul_comm h 16] at hnumeral
    exact ⟨16 * h + l, readNumber?_of_numeral hnumeral (by omega), rfl⟩
  | @plus c v hc =>
    have hv := digitValue?_lt hc.digitValue?
    have hsigned : ∃ plus digits, ['+', c] = plusSign plus ++ digits ∧ Numeral 16 digits v :=
      ⟨true, [c], rfl, .digit hc.digitValue?⟩
    exact ⟨v, (readNumber?_eq_some_iff (by decide)).mpr ⟨by omega, hsigned⟩, rfl⟩

theorem parsePart_eq_ok_iff : parsePart index part = .ok b ↔ SpellsByte part b := by
  unfold parsePart
  rw [encodedLength_eq]
  constructor
  · intro h
    split at h
    · cases h
    · rename_i hlength
      split at h
      · rename_i n hn
        obtain rfl := Except.ok.inj h
        exact spellsByte_of_readNumber? (not_not.mp hlength) hn
      · cases h
  · intro h
    obtain ⟨n, hn, rfl⟩ := h.readNumber?
    rw [if_neg (not_not.mpr h.length_encode), hn]

theorem parsePart_eq_error_iff : parsePart index part = .error e ↔ PartFault index part e := by
  have hok : ∀ b, SpellsByte part b → parsePart index part = .ok b := fun b =>
    parsePart_eq_ok_iff.mpr
  constructor
  · intro h
    have hspells : ∀ b, ¬ SpellsByte part b := fun b hb => by
      rw [hok b hb] at h
      cases h
    unfold parsePart at h
    rw [encodedLength_eq] at h
    split at h
    · rename_i hlength
      obtain rfl := Except.error.inj h
      exact .length hlength
    · rename_i hlength
      split at h
      · cases h
      · obtain rfl := Except.error.inj h
        exact .notHex (not_not.mp hlength) hspells
  · intro h
    unfold parsePart
    rw [encodedLength_eq]
    cases h with
    | length hlength => rw [if_pos hlength]
    | notHex hlength hspells =>
      rw [if_neg (not_not.mpr hlength)]
      cases hn : Text.readNumber? 16 256 part with
      | none => rfl
      | some n => exact absurd (spellsByte_of_readNumber? hlength hn) (hspells _)

end

-- ---------------------------------------------------------------------------
-- All parts
-- ---------------------------------------------------------------------------

/-- Reads parts one after the other, the first of them with the number `index`. -/
def parseParts (index : Nat) : List (List Char) → Except ParseError (List UInt8)
  | [] => return []
  | part :: rest => do
    let b ← parsePart index part
    let bytes ← parseParts (index + 1) rest
    return b :: bytes

/-- The first part that spells no byte has the fault `e`. The parts are numbered from
`index` on. -/
def FirstFault (index : Nat) (parts : List (List Char)) (e : ParseError) : Prop :=
  ∃ before part after, parts = before ++ part :: after ∧ (∀ p ∈ before, ∃ b, SpellsByte p b) ∧
    PartFault (index + before.length) part e

theorem firstFault_cons {index : Nat} {part : List Char} {rest : List (List Char)}
    {e : ParseError} :
    FirstFault index (part :: rest) e ↔
      PartFault index part e ∨ ∃ b, SpellsByte part b ∧ FirstFault (index + 1) rest e := by
  constructor
  · rintro ⟨before, bad, after, hparts, hbefore, hfault⟩
    cases before with
    | nil =>
      obtain ⟨rfl, -⟩ := List.cons.inj hparts
      exact .inl hfault
    | cons first before =>
      obtain ⟨rfl, rfl⟩ := List.cons.inj hparts
      obtain ⟨⟨b, hb⟩, hbefore⟩ := List.forall_mem_cons.mp hbefore
      rw [List.length_cons, Nat.add_comm before.length, ← Nat.add_assoc] at hfault
      exact .inr ⟨b, hb, before, bad, after, rfl, hbefore, hfault⟩
  · rintro (hfault | ⟨b, hb, before, bad, after, rfl, hbefore, hfault⟩)
    · exact ⟨[], part, rest, rfl, List.forall_mem_nil _, hfault⟩
    · refine ⟨part :: before, bad, after, rfl, List.forall_mem_cons.mpr ⟨⟨b, hb⟩, hbefore⟩, ?_⟩
      rwa [List.length_cons, Nat.add_comm before.length, ← Nat.add_assoc]

theorem parseParts_eq_ok_iff {index : Nat} {parts : List (List Char)} {bytes : List UInt8} :
    parseParts index parts = .ok bytes ↔ List.Forall₂ SpellsByte parts bytes := by
  induction parts generalizing index bytes with
  | nil =>
    rw [List.forall₂_nil_left_iff]
    exact ⟨fun h => (Except.ok.inj h).symm, fun h => h ▸ rfl⟩
  | cons part rest ih =>
    simp only [parseParts, bind_eq_ok, parsePart_eq_ok_iff, ih, List.forall₂_cons_left_iff]
    constructor
    · rintro ⟨b, hb, tail, htail, heq⟩
      exact ⟨b, tail, hb, htail, (Except.ok.inj heq).symm⟩
    · rintro ⟨b, tail, hb, htail, rfl⟩
      exact ⟨b, hb, tail, htail, rfl⟩

theorem parseParts_eq_error_iff {index : Nat} {parts : List (List Char)} {e : ParseError} :
    parseParts index parts = .error e ↔ FirstFault index parts e := by
  induction parts generalizing index with
  | nil =>
    refine ⟨fun h => (nomatch h), ?_⟩
    rintro ⟨before, part, after, hparts, -⟩
    exact absurd hparts.symm (List.append_ne_nil_of_right_ne_nil _ (List.cons_ne_nil _ _))
  | cons part rest ih =>
    rw [firstFault_cons]
    simp only [parseParts, bind_eq_error, parsePart_eq_error_iff, parsePart_eq_ok_iff, ih]
    refine or_congr_right (exists_congr fun b => and_congr_right fun _ => ?_)
    exact or_iff_left fun ⟨_, _, h⟩ => nomatch h

/-- The address of six bytes. -/
def ofBytes : List UInt8 → Address
  | [b0, b1, b2, b3, b4, b5] => ⟨b0, b1, b2, b3, b4, b5⟩
  | _ => default

theorem ofBytes_eq_iff {bytes : List UInt8} (h : bytes.length = 6) (a : Address) :
    ofBytes bytes = a ↔ bytes = a.bytes := by
  match bytes, h with
  | [b0, b1, b2, b3, b4, b5], _ =>
    cases a
    simp [ofBytes, Address.bytes]

/-- The parts between the colons of a text, without the blanks at its ends. -/
def parts (s : List Char) : List (List Char) := (trim s).splitOn ':'

theorem parseChars_eq (s : List Char) :
    parseChars s =
      if (parts s).length = 6 then ofBytes <$> parseParts 0 (parts s)
      else .error (.partCount (parts s).length) := by
  unfold parseChars
  rw [← parts]
  split
  · rename_i hparts
    simp only [hparts, List.length_cons, List.length_nil, if_true, parseParts, map_eq_pure_bind,
      bind_assoc, pure_bind]
    rfl
  · rename_i hparts
    generalize parts s = parts at hparts ⊢
    have hlength : parts.length ≠ 6 := by
      intro h
      match parts, h with
      | [p0, p1, p2, p3, p4, p5], _ => exact hparts p0 p1 p2 p3 p4 p5 rfl
    rw [if_neg hlength]

theorem parseChars_eq_ok_iff {s : List Char} {a : Address} :
    parseChars s = .ok a ↔ List.Forall₂ SpellsByte (parts s) a.bytes := by
  rw [parseChars_eq]
  split
  · rename_i hlength
    rw [map_eq_pure_bind, bind_eq_ok]
    constructor
    · rintro ⟨bytes, hbytes, ha⟩
      rw [parseParts_eq_ok_iff] at hbytes
      rwa [← (ofBytes_eq_iff (hbytes.length_eq ▸ hlength) a).mp (Except.ok.inj ha)]
    · intro h
      have ha : ofBytes a.bytes = a := (ofBytes_eq_iff rfl a).mpr rfl
      exact ⟨a.bytes, parseParts_eq_ok_iff.mpr h, congrArg Except.ok ha⟩
  · rename_i hlength
    exact ⟨fun h => (nomatch h), fun h => absurd h.length_eq hlength⟩

theorem parseChars_eq_error_iff {s : List Char} {e : ParseError} :
    parseChars s = .error e ↔
      (parts s).length ≠ 6 ∧ e = .partCount (parts s).length ∨
        (parts s).length = 6 ∧ FirstFault 0 (parts s) e := by
  rw [parseChars_eq]
  split
  · rename_i hlength
    rw [map_eq_pure_bind, bind_eq_error, parseParts_eq_error_iff]
    constructor
    · rintro (h | ⟨_, _, h⟩)
      · exact .inr ⟨hlength, h⟩
      · cases h
    · rintro (⟨h, -⟩ | ⟨-, h⟩)
      · exact absurd hlength h
      · exact .inl h
  · rename_i hlength
    constructor
    · intro h
      exact .inl ⟨hlength, (Except.error.inj h).symm⟩
    · rintro (⟨-, rfl⟩ | ⟨h, -⟩)
      · rfl
      · exact absurd h hlength

-- ---------------------------------------------------------------------------
-- The text of an address
-- ---------------------------------------------------------------------------

/-- Texts that differ in the case of letters at most. -/
def SameLetters (s t : List Char) : Prop := s.map Char.toLower = t.map Char.toLower

theorem SameLetters.exists_pair {s : List Char} {c d : Char} (h : SameLetters s [c, d]) :
    ∃ c' d', s = [c', d'] ∧ c'.toLower = c.toLower ∧ d'.toLower = d.toLower := by
  obtain ⟨c', rest, rfl, hc, hrest⟩ := List.map_eq_cons_iff.mp h
  obtain ⟨d', rfl, hd⟩ := List.map_eq_singleton_iff.mp hrest
  exact ⟨c', d', rfl, hc, hd⟩

theorem SpellsByte.congr {part part' : List Char} {b : UInt8} (h : SpellsByte part b)
    (hsame : SameLetters part' part) : SpellsByte part' b := by
  cases h with
  | digits hhi hlo =>
    obtain ⟨hi, lo, rfl, hhi', hlo'⟩ := hsame.exists_pair
    exact .digits (hhi.congr hhi') (hlo.congr hlo')
  | plus hc =>
    obtain ⟨sign, c, rfl, hsign, hc'⟩ := hsame.exists_pair
    obtain rfl := eq_of_toLower_eq hsign (by decide)
    exact .plus (hc.congr hc')

/-- Parts that spell bytes spell the same bytes in letters of the other case. -/
theorem exists_parts_of_sameLetters {parts : List (List Char)} {bytes : List UInt8}
    (h : List.Forall₂ SpellsByte parts bytes) {t : List Char}
    (ht : SameLetters t ([':'].intercalate parts)) :
    ∃ parts', t = [':'].intercalate parts' ∧ List.Forall₂ SpellsByte parts' bytes := by
  induction h generalizing t with
  | nil => exact ⟨[], List.map_eq_nil_iff.mp ht, .nil⟩
  | cons hfirst hrest ih =>
    cases hrest with
    | nil =>
      rw [List.intercalate_singleton] at ht
      exact ⟨[t], List.intercalate_singleton.symm, .cons (hfirst.congr ht) .nil⟩
    | cons hsecond hothers =>
      rw [List.intercalate_cons_cons, SameLetters, List.map_append, List.map_append,
        List.map_eq_append_iff] at ht
      obtain ⟨front, rest, rfl, hfront, hrest⟩ := ht
      obtain ⟨first, colon, rfl, hsame, hcolon⟩ := List.map_eq_append_iff.mp hfront
      obtain ⟨c, rfl, hc⟩ := List.map_eq_singleton_iff.mp hcolon
      obtain rfl := eq_of_toLower_eq hc (by decide)
      obtain ⟨others, rfl, hspells⟩ := ih hrest
      cases hspells with
      | cons hsecond' hothers' =>
        exact ⟨_, List.intercalate_cons_cons.symm, .cons (hfirst.congr hsame)
          (.cons hsecond' hothers')⟩

theorem visible_intercalate {parts : List (List Char)} (h : ∀ part ∈ parts, Visible part) :
    Visible ([':'].intercalate parts) := by
  induction parts with
  | nil => exact List.forall_mem_nil _
  | cons first rest ih =>
    obtain ⟨hfirst, hrest⟩ := List.forall_mem_cons.mp h
    cases rest with
    | nil =>
      rw [List.intercalate_singleton]
      exact hfirst
    | cons second others =>
      have hcolon : Visible [':'] := by
        rw [Visible, List.forall_mem_singleton]
        decide
      rw [List.intercalate_cons_cons]
      exact List.forall_mem_append.mpr ⟨List.forall_mem_append.mpr ⟨hfirst, hcolon⟩, ih hrest⟩

theorem spellsByte_of_mem {parts : List (List Char)} {bytes : List UInt8}
    (h : List.Forall₂ SpellsByte parts bytes) {part : List Char} (hpart : part ∈ parts) :
    ∃ b, SpellsByte part b := by
  induction h with
  | nil => cases hpart
  | cons hfirst _ ih =>
    rcases List.mem_cons.mp hpart with rfl | hpart
    · exact ⟨_, hfirst⟩
    · exact ih hpart

/-- Parts that spell bytes are found again, between blanks as well. -/
theorem parts_intercalate {parts : List (List Char)} {bytes : List UInt8}
    (h : List.Forall₂ SpellsByte parts bytes) (hne : parts ≠ []) {before after : List Char}
    (hbefore : Blank before) (hafter : Blank after) :
    Address.parts (before ++ [':'].intercalate parts ++ after) = parts := by
  have hvisible : ∀ part ∈ parts, Visible part := by
    intro part hpart
    obtain ⟨b, hb⟩ := spellsByte_of_mem h hpart
    exact visible_of_graphic hb.graphic
  have hcolon : ∀ part ∈ parts, ':' ∉ part := by
    intro part hpart
    obtain ⟨b, hb⟩ := spellsByte_of_mem h hpart
    exact hb.colon_not_mem
  rw [Address.parts, trim_blank_visible hbefore (visible_intercalate hvisible) hafter]
  exact List.splitOn_intercalate ':' hcolon hne

theorem spellsByte_upperHex (b : UInt8) : SpellsByte (upperHex 2 b.toNat) b := by
  have hdigit : ∀ n < 16, HexDigit (Hex.digit n).toUpper n := by
    unfold HexDigit
    decide
  have hspells := SpellsByte.digits (hdigit _ (Hex.high_lt b)) (hdigit _ (Hex.low_lt b))
  rw [Nat.div_add_mod, UInt8.ofNat_toNat] at hspells
  rw [upperHex, lowerHex_two b.toNat_lt]
  exact hspells

theorem forall₂_text (a : Address) :
    List.Forall₂ SpellsByte (a.bytes.map fun b => upperHex 2 b.toNat) a.bytes := by
  rw [List.forall₂_map_left_iff, List.forall₂_same]
  exact fun b _ => spellsByte_upperHex b

theorem parseChars_of_sameLetters {a : Address} {t before after : List Char}
    (h : SameLetters t a.text) (hbefore : Blank before) (hafter : Blank after) :
    parseChars (before ++ t ++ after) = .ok a := by
  obtain ⟨parts, rfl, hparts⟩ := exists_parts_of_sameLetters a.forall₂_text h
  have hne : parts ≠ [] := fun hnil => by
    subst hnil
    cases hparts
  rw [parseChars_eq_ok_iff, parts_intercalate hparts hne hbefore hafter]
  exact hparts

/-- An address is read from a text exactly if its parts, the blanks around it left out,
spell the bytes of the address. A text without six parts is refused for their number,
and any other for its first part that spells no byte. The text of an address, in letters
of either case and between blanks, is read back, and so are its bytes on the wire. -/
theorem parse_by_parts :
    (∀ s : String, let parts := (trim s.toList).splitOn ':'
      (∀ a, parse s = .ok a ↔ List.Forall₂ SpellsByte parts a.bytes) ∧
      ∀ e, parse s = .error e ↔
        parts.length ≠ 6 ∧ e = .partCount parts.length ∨
        parts.length = 6 ∧ ∃ before part after, parts = before ++ part :: after ∧
          (∀ p ∈ before, ∃ b, SpellsByte p b) ∧ PartFault before.length part e) ∧
    ∀ a : Address,
      (∀ before t after, Blank before → SameLetters t a.text → Blank after →
        parse (String.ofList (before ++ t ++ after)) = .ok a) ∧
      ∃ w0 w1 w2 w3 w4 w5, a.wireBytes = [w0, w1, w2, w3, w4, w5] ∧
        ofWire w0 w1 w2 w3 w4 w5 = a := by
  refine ⟨fun s => ⟨fun a => parseChars_eq_ok_iff, fun e => ?_⟩, fun a => ⟨?_, ?_⟩⟩
  · have herror := parseChars_eq_error_iff (s := s.toList) (e := e)
    simp only [FirstFault, Nat.zero_add] at herror
    exact herror
  · intro before t after hbefore h hafter
    rw [parse, String.toList_ofList]
    exact parseChars_of_sameLetters h hbefore hafter
  · exact ⟨_, _, _, _, _, _, rfl, rfl⟩

/-- The text of an address in letters of both cases, and a text with two faults. -/
theorem parse_by_parts_mixed_case :
    let a : Address := ⟨0xAA, 0x0B, 0x0C, 0x00, 0xFF, 0x10⟩
    Blank [' ', '\t'] ∧ SameLetters "aA:0b:0C:00:fF:10".toList a.text ∧ Blank ['\n'] ∧
      parse (String.ofList ([' ', '\t'] ++ "aA:0b:0C:00:fF:10".toList ++ ['\n'])) = .ok a ∧
      parse "AA:BB:CCC:DD:EE:GG" = .error (.partLength 2) := by
  intro a
  have hbefore : Blank [' ', '\t'] := by decide
  have hletters : SameLetters "aA:0b:0C:00:fF:10".toList a.text := by
    unfold SameLetters
    decide
  have hafter : Blank ['\n'] := by decide
  have hfirst : ∀ p ∈ ["AA".toList, "BB".toList], ∃ b, SpellsByte p b := by
    have hA : HexDigit 'A' 10 := .inr (by decide)
    have hB : HexDigit 'B' 11 := .inr (by decide)
    refine List.forall_mem_cons.mpr ⟨⟨_, .digits hA hA⟩, ?_⟩
    exact List.forall_mem_cons.mpr ⟨⟨_, .digits hB hB⟩, List.forall_mem_nil _⟩
  refine ⟨hbefore, hletters, hafter, (parse_by_parts.2 a).1 _ _ _ hbefore hletters hafter, ?_⟩
  refine ((parse_by_parts.1 "AA:BB:CCC:DD:EE:GG").2 _).mpr (.inr ⟨by decide, ?_⟩)
  exact ⟨["AA".toList, "BB".toList], "CCC".toList, ["DD".toList, "EE".toList, "GG".toList],
    by decide, hfirst, .length (by decide)⟩

end BleCapture.Address
