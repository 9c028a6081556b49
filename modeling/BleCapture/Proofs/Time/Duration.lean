import BleCapture.Proofs.Text.Hex
import BleCapture.Proofs.Text.Number
import BleCapture.Proofs.Text.Search
import BleCapture.Time.Duration

/-!
# Durations as text

A duration is written as a count and a unit, with or without blanks between them. Where a
text ends with several units the longest is meant: a count has no letters, so what is left
by a shorter one cannot be read. Durations are read from texts of this form and from no
others.
-/

namespace BleCapture.Duration

open Text

-- ---------------------------------------------------------------------------
-- The written form
-- ---------------------------------------------------------------------------

inductive TimeUnit where
  | bare
  | seconds
  | minutes
  | hours
  | millis
  deriving DecidableEq

namespace TimeUnit

def text : TimeUnit → List Char
  | bare => []
  | seconds => ['s']
  | minutes => ['m']
  | hours => ['h']
  | millis => ['m', 's']

def nanos : TimeUnit → Nat
  | bare | seconds => nanosPerSecond
  | minutes => 60 * nanosPerSecond
  | hours => 3600 * nanosPerSecond
  | millis => 1000000

/-- What a count is multiplied by. Counts of milliseconds are kept as they are. -/
def factor : TimeUnit → Nat
  | bare | seconds | millis => 1
  | minutes => 60
  | hours => 3600

/-- What is reported about a text with this unit and no count before it. -/
def fault (front : List Char) : TimeUnit → ParseError
  | bare => .seconds (String.ofList front)
  | seconds => .seconds (String.ofList (front ++ ['s']))
  | minutes => .minutes (String.ofList front)
  | hours => .hours (String.ofList front)
  | millis => .milliseconds (String.ofList front)

end TimeUnit

/-- A duration in writing. -/
@[ext]
structure Form where
  plus : Bool
  digits : List Char
  gap : List Char
  unit : TimeUnit
  digits_ne_nil : digits ≠ []
  isDigit_of_mem : ∀ c ∈ digits, c.isDigit
  blank_gap : Blank gap

namespace Form

/-- What stands before the unit. -/
def front (f : Form) : List Char := plusSign f.plus ++ f.digits ++ f.gap

def text (f : Form) : List Char := f.front ++ f.unit.text

def number (f : Form) : Nat := Nat.ofDigitChars 10 f.digits 0

def duration (f : Form) : Duration := ⟨f.number * f.unit.nanos⟩

end Form

-- ---------------------------------------------------------------------------
-- Counts
-- ---------------------------------------------------------------------------

theorem Form.visible_number (f : Form) : Visible (plusSign f.plus ++ f.digits) := by
  intro c hc
  rcases List.mem_append.mp hc with hc | hc
  · cases hf : f.plus <;> simp [hf, plusSign] at hc
    subst hc
    decide
  · exact isBlank_of_isDigit (f.isDigit_of_mem c hc)

theorem Form.plus_not_mem (f : Form) : '+' ∉ f.digits := fun h =>
  absurd (f.isDigit_of_mem '+' h) (by decide)

theorem Form.trim_front (f : Form) : trim f.front = plusSign f.plus ++ f.digits :=
  trim_blank_visible (List.forall_mem_nil _ : Blank []) f.visible_number f.blank_gap

/-- Counts are the fronts of written forms, whatever the unit. -/
theorem readCount?_eq_some_iff {s : List Char} {n : Nat} (u : TimeUnit)
    (hhead : s.head?.any isBlank = false) :
    readCount? s = some n ↔
      ∃ f : Form, f.front = s ∧ f.unit = u ∧ f.number = n ∧ n < UInt64.size := by
  have hbound : 0 < UInt64.size := by decide
  unfold readCount?
  constructor
  · intro h
    obtain ⟨hn, plus, digits, htrim, hnumeral⟩ := (readNumber?_eq_some_iff hbound).mp h
    obtain ⟨hne, hdigits, rfl⟩ := numeral_ten_iff.mp hnumeral
    obtain ⟨gap, hgap, hs⟩ := exists_trimEnd_append_blank s
    rw [trim, trimStart_of_head hhead] at htrim
    rw [htrim] at hs
    exact ⟨⟨plus, digits, gap, u, hne, hdigits, hgap⟩, hs.symm, rfl, rfl, hn⟩
  · rintro ⟨f, rfl, -, rfl, hn⟩
    have hnumeral : Numeral 10 f.digits f.number :=
      numeral_ten_iff.mpr ⟨f.digits_ne_nil, f.isDigit_of_mem, rfl⟩
    rw [f.trim_front]
    exact (readNumber?_eq_some_iff hbound).mpr ⟨hn, f.plus, f.digits, rfl, hnumeral⟩

-- ---------------------------------------------------------------------------
-- Units
-- ---------------------------------------------------------------------------

theorem TimeUnit.text_injective {u v : TimeUnit} (h : u.text = v.text) : u = v := by
  cases u <;> cases v <;> first | rfl | cases h

theorem TimeUnit.not_mem_front (u : TimeUnit) (f : Form) : ∀ c ∈ u.text, c ∉ f.front := by
  have hletters : u.text.all (fun c => c != '+' && !c.isDigit && !isBlank c) = true := by
    cases u <;> rfl
  intro c hc hfront
  have hletter := List.all_eq_true.mp hletters c hc
  simp only [Bool.and_eq_true, bne_iff_ne, Bool.not_eq_true'] at hletter
  obtain ⟨⟨hplus, hdigit⟩, hblank⟩ := hletter
  simp only [Form.front, List.mem_append] at hfront
  rcases hfront with (hsign | hmem) | hmem
  · cases hf : f.plus <;> simp [hf, plusSign, hplus] at hsign
  · simp [f.isDigit_of_mem c hmem] at hdigit
  · simp [f.blank_gap c hmem] at hblank

/-- The text is `front` with the unit behind it, and ends with no longer unit. -/
structure EndsIn (s front : List Char) (u : TimeUnit) : Prop where
  eq : s = front ++ u.text
  longest : ∀ v : TimeUnit, v.text <:+ s → v.text.length ≤ u.text.length

theorem exists_endsIn (s : List Char) : ∃ front u, EndsIn s front u := by
  by_cases hmillis : TimeUnit.millis.text <:+ s
  · obtain ⟨front, rfl⟩ := hmillis
    exact ⟨front, .millis, rfl, fun v _ => by cases v <;> decide⟩
  have hshort : ∀ v : TimeUnit, v.text <:+ s → v.text.length ≤ 1 := by
    intro v hv
    cases v with
    | millis => exact absurd hv hmillis
    | _ => decide
  by_cases hletter : ∃ u : TimeUnit, u.text.length = 1 ∧ u.text <:+ s
  · obtain ⟨u, hlength, front, rfl⟩ := hletter
    exact ⟨front, u, rfl, hlength ▸ hshort⟩
  · refine ⟨s, .bare, (List.append_nil s).symm, fun v hv => ?_⟩
    have hle : v.text.length ≤ 1 := hshort v hv
    have hne : v.text.length ≠ 1 := fun h => hletter ⟨v, h, hv⟩
    exact Nat.le_of_lt_succ (Nat.lt_of_le_of_ne hle hne)

theorem Form.endsIn (f : Form) : EndsIn f.text f.front f.unit := by
  refine ⟨rfl, fun v hv => Nat.le_of_not_lt fun hlt => ?_⟩
  obtain ⟨w, hw⟩ : f.unit.text <:+ v.text :=
    List.suffix_of_suffix_length_le (List.suffix_append f.front f.unit.text) hv (Nat.le_of_lt hlt)
  obtain ⟨before, hbefore⟩ := hv
  have hfront : before ++ w = f.front := by
    rw [← hw, ← List.append_assoc] at hbefore
    exact List.append_cancel_right hbefore
  -- The longer unit begins with `w`, and so there would be a letter in the front.
  cases w with
  | nil =>
    rw [← hw] at hlt
    exact Nat.lt_irrefl _ hlt
  | cons c w =>
    have hmem : c ∈ v.text := by simp [← hw]
    have hin : c ∈ f.front := by simp [← hfront]
    exact v.not_mem_front f c hmem hin

section
variable {s front : List Char} {u v : TimeUnit}

theorem EndsIn.suffix (h : EndsIn s front u) : u.text <:+ s := ⟨front, h.eq.symm⟩

theorem EndsIn.eq_of_suffix (h : EndsIn s front u) (hv : v.text <:+ s)
    (hle : u.text.length ≤ v.text.length) : v = u := by
  have hlength : v.text.length = u.text.length := Nat.le_antisymm (h.longest v hv) hle
  exact TimeUnit.text_injective
    ((List.suffix_of_suffix_length_le hv h.suffix (Nat.le_of_eq hlength)).eq_of_length hlength)

theorem EndsIn.unique {front' : List Char} (h : EndsIn s front u) (h' : EndsIn s front' v) :
    front = front' ∧ u = v := by
  obtain rfl : v = u := h.eq_of_suffix h'.suffix (h'.longest u h.suffix)
  exact ⟨List.append_cancel_right (h.eq.symm.trans h'.eq), rfl⟩

theorem EndsIn.dropTail?_self (h : EndsIn s front u) : dropTail? u.text s = some front := by
  rw [h.eq]
  exact dropTail?_append front u.text

theorem EndsIn.dropTail?_other (h : EndsIn s front u) (hne : v ≠ u)
    (hle : u.text.length ≤ v.text.length) : dropTail? v.text s = none :=
  dropTail?_eq_none_iff.mpr fun hv => hne (h.eq_of_suffix hv hle)

theorem EndsIn.head_front (h : EndsIn (trim s) front u) : front.head?.any isBlank = false := by
  have hhead := head_trim s
  rw [h.eq] at hhead
  cases front with
  | nil => rfl
  | cons c rest => exact hhead

end

theorem Form.eq_of_text_eq {f g : Form} (h : f.text = g.text) : f = g := by
  have hends : EndsIn f.text g.front g.unit := h ▸ g.endsIn
  obtain ⟨hfront, hunit⟩ := f.endsIn.unique hends
  have hnumber : plusSign f.plus ++ f.digits = plusSign g.plus ++ g.digits := by
    rw [← f.trim_front, ← g.trim_front, hfront]
  obtain ⟨hplus, hdigits⟩ := plusSign_append_inj f.plus_not_mem g.plus_not_mem hnumber
  have hgap : f.gap = g.gap := by
    rw [Form.front, Form.front, hnumber] at hfront
    exact List.append_cancel_left hfront
  exact Form.ext hplus hdigits hgap hunit

/-- The unit a text ends in decides how the text is read. -/
theorem parseChars_of_endsIn {s front : List Char} {u : TimeUnit} (hne : trim s ≠ [])
    (h : EndsIn (trim s) front u) :
    parseChars s =
      match readCount? front with
      | some n => .ok ⟨n * u.nanos⟩
      | none => .error (u.fault front) := by
  have hempty : (trim s).isEmpty = false := List.isEmpty_eq_false_iff.mpr hne
  have hother : ∀ v ≠ u, u.text.length ≤ v.text.length → dropTail? v.text (trim s) = none :=
    fun v => h.dropTail?_other
  unfold parseChars
  simp only [hempty, Bool.false_eq_true, if_false]
  cases u with
  | millis =>
    have hdrop : dropTail? ['m', 's'] (trim s) = some front := h.dropTail?_self
    simp only [hdrop]
    rfl
  | hours =>
    have hms : dropTail? ['m', 's'] (trim s) = none := hother .millis (by decide) (by decide)
    have hdrop : dropTail? ['h'] (trim s) = some front := h.dropTail?_self
    simp only [hms, hdrop, ofSeconds, Nat.mul_assoc]
    rfl
  | minutes =>
    have hms : dropTail? ['m', 's'] (trim s) = none := hother .millis (by decide) (by decide)
    have hh : dropTail? ['h'] (trim s) = none := hother .hours (by decide) (by decide)
    have hdrop : dropTail? ['m'] (trim s) = some front := h.dropTail?_self
    simp only [hms, hh, hdrop, ofSeconds, Nat.mul_assoc]
    rfl
  | seconds =>
    have hms : dropTail? ['m', 's'] (trim s) = none := hother .millis (by decide) (by decide)
    have hh : dropTail? ['h'] (trim s) = none := hother .hours (by decide) (by decide)
    have hm : dropTail? ['m'] (trim s) = none := hother .minutes (by decide) (by decide)
    have hdrop : dropTail? ['s'] (trim s) = some front := h.dropTail?_self
    simp only [hms, hh, hm, hdrop, Option.getD_some]
    rw [h.eq]
    rfl
  | bare =>
    have hms : dropTail? ['m', 's'] (trim s) = none := hother .millis (by decide) (by decide)
    have hh : dropTail? ['h'] (trim s) = none := hother .hours (by decide) (by decide)
    have hm : dropTail? ['m'] (trim s) = none := hother .minutes (by decide) (by decide)
    have hs : dropTail? ['s'] (trim s) = none := hother .seconds (by decide) (by decide)
    simp only [hms, hh, hm, hs, Option.getD_none]
    rw [h.eq, TimeUnit.text, List.append_nil]
    rfl

-- ---------------------------------------------------------------------------
-- What is read
-- ---------------------------------------------------------------------------

theorem Form.text_ne_nil (f : Form) : f.text ≠ [] := by
  simp [Form.text, Form.front, f.digits_ne_nil]

theorem Form.seconds_duration_le (f : Form) :
    f.duration.seconds ≤ f.number * f.unit.factor := by
  cases hu : f.unit <;>
    simp only [seconds, duration, hu, TimeUnit.nanos, TimeUnit.factor, nanosPerSecond] <;> omega

theorem parseChars_eq_ok_iff {s : List Char} {d : Duration} :
    parseChars s = .ok d ↔
      ∃ f : Form, f.text = trim s ∧ f.number < UInt64.size ∧ f.duration = d := by
  constructor
  · intro h
    have hne : trim s ≠ [] := by
      intro hnil
      simp [parseChars, hnil] at h
    obtain ⟨front, u, hends⟩ := exists_endsIn (trim s)
    rw [parseChars_of_endsIn hne hends] at h
    split at h
    · rename_i n hn
      obtain ⟨f, rfl, rfl, rfl, hbound⟩ := (readCount?_eq_some_iff u hends.head_front).mp hn
      exact ⟨f, hends.eq.symm, hbound, Except.ok.inj h⟩
    · cases h
  · rintro ⟨f, htext, hbound, rfl⟩
    have hends : EndsIn (trim s) f.front f.unit := htext ▸ f.endsIn
    have hcount : readCount? f.front = some f.number :=
      (readCount?_eq_some_iff f.unit hends.head_front).mpr ⟨f, rfl, rfl, rfl, hbound⟩
    rw [parseChars_of_endsIn (htext ▸ f.text_ne_nil) hends, hcount]
    rfl

/-- Durations are read from the written forms, each of which a text has in one way, and
from nothing else. -/
theorem parse_by_form (s : String)
    (hfits : ∀ f : Form, f.text = trim s.toList → f.number < UInt64.size →
      f.number * f.unit.factor < UInt64.size) :
    (∀ d, parse s = .ok d ↔
      ∃ f : Form, f.text = trim s.toList ∧ f.number < UInt64.size ∧ f.duration = d) ∧
    (∀ f g : Form, f.text = trim s.toList → g.text = trim s.toList → f = g) ∧
    (∀ d, parse s = .ok d → d.seconds < UInt64.size) ∧
    ((∀ f : Form, f.text = trim s.toList → UInt64.size ≤ f.number) →
      ∃ e, parse s = .error e) := by
  refine ⟨fun _ => parseChars_eq_ok_iff, ?_, ?_, ?_⟩
  · intro f g hf hg
    exact Form.eq_of_text_eq (hf.trans hg.symm)
  · intro d h
    obtain ⟨f, htext, hbound, rfl⟩ := parseChars_eq_ok_iff.mp h
    exact Nat.lt_of_le_of_lt f.seconds_duration_le (hfits f htext hbound)
  · intro hnone
    cases h : parse s with
    | error e => exact ⟨e, rfl⟩
    | ok d =>
      obtain ⟨f, htext, hbound, -⟩ := parseChars_eq_ok_iff.mp h
      exact absurd hbound (Nat.not_lt_of_le (hnone f htext))

theorem parse_by_form_millis :
    (∀ f : Form, f.text = trim " +5 ms".toList → f.number < UInt64.size →
      f.number * f.unit.factor < UInt64.size) ∧
    parse " +5 ms" = .ok ⟨5000000⟩ := by
  let five : Form := ⟨true, ['5'], [' '], .millis, by decide, List.all_eq_true.mp rfl, by decide⟩
  have htext : five.text = trim " +5 ms".toList := by decide
  have hfits : ∀ f : Form, f.text = trim " +5 ms".toList → f.number < UInt64.size →
      f.number * f.unit.factor < UInt64.size := by
    intro f hf _
    obtain rfl : f = five := Form.eq_of_text_eq (hf.trans htext.symm)
    decide
  obtain ⟨hread, -⟩ := parse_by_form " +5 ms" hfits
  exact ⟨hfits, (hread _).mpr ⟨five, htext, by decide, by decide⟩⟩

end BleCapture.Duration
