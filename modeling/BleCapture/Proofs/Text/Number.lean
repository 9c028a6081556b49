import BleCapture.Text.Number
import Mathlib.Data.List.Induction

/-!
# Numerals that are read

A numeral is a run of digits of either case, zeros in front included. The reader
gives the value of every numeral below its bound, with a plus sign or without one, and
reads nothing else.
-/

namespace BleCapture.Text

/-- The numerals of a base, and their values. -/
inductive Numeral (base : Nat) : List Char → Nat → Prop
  | digit {c : Char} {v : Nat} (h : digitValue? base c = some v) : Numeral base [c] v
  | more {s : List Char} {n : Nat} {c : Char} {v : Nat} (hs : Numeral base s n)
      (h : digitValue? base c = some v) : Numeral base (s ++ [c]) (n * base + v)

theorem digitValue?_lt {base v : Nat} {c : Char} (h : digitValue? base c = some v) : v < base := by
  simp only [digitValue?, Option.ite_none_right_eq_some, Option.some.injEq] at h
  obtain ⟨hlt, rfl⟩ := h
  exact hlt

/-- Digits of a base of at most sixteen are ASCII. -/
theorem toNat_of_digitValue? {base v : Nat} {c : Char} (h : digitValue? base c = some v) :
    0x30 ≤ c.toNat ∧ c.toNat ≤ 0x66 := by
  simp only [digitValue?, Option.ite_none_right_eq_some] at h
  obtain ⟨hlt, -⟩ := h
  repeat' split at hlt
  all_goals omega

theorem Numeral.ne_nil {base n : Nat} {s : List Char} (h : Numeral base s n) : s ≠ [] := by
  cases h <;> simp

theorem Numeral.exists_digit {base n : Nat} {s : List Char} (h : Numeral base s n) :
    ∀ c ∈ s, ∃ v, digitValue? base c = some v := by
  induction h with
  | digit h =>
    intro c hc
    obtain rfl := List.mem_singleton.mp hc
    exact ⟨_, h⟩
  | more _ h ih =>
    intro c hc
    rcases List.mem_append.mp hc with hc | hc
    · exact ih c hc
    · obtain rfl := List.mem_singleton.mp hc
      exact ⟨_, h⟩

theorem readDigits?_append (base bound acc : Nat) (s t : List Char) :
    readDigits? base bound acc (s ++ t) =
      (readDigits? base bound acc s).bind fun n => readDigits? base bound n t := by
  induction s generalizing acc with
  | nil => rfl
  | cons c s ih =>
    simp only [List.cons_append, readDigits?]
    cases digitValue? base c with
    | none => rfl
    | some v =>
      simp only [Option.bind_some]
      split
      · exact ih _
      · rfl

theorem readDigits?_singleton {base bound acc v : Nat} {c : Char}
    (h : digitValue? base c = some v) (hbound : acc * base + v < bound) :
    readDigits? base bound acc [c] = some (acc * base + v) := by
  simp [readDigits?, h, hbound]

theorem readDigits?_of_numeral {base bound n : Nat} {s : List Char} (h : Numeral base s n)
    (hbound : n < bound) : readDigits? base bound 0 s = some n := by
  induction h with
  | @digit c v h =>
    have hread : readDigits? base bound 0 [c] = some (0 * base + v) :=
      readDigits?_singleton h (by omega)
    simpa using hread
  | @more s n c v _ h ih =>
    have hle : n ≤ n * base := Nat.le_mul_of_pos_right n (Nat.zero_lt_of_lt (digitValue?_lt h))
    rw [readDigits?_append, ih (by omega), Option.bind_some, readDigits?_singleton h hbound]

/-- A plus sign is no digit. -/
theorem not_numeral_plus {base n : Nat} {s : List Char} : ¬ Numeral base ('+' :: s) n := by
  intro h
  obtain ⟨v, hv⟩ := h.exists_digit '+' List.mem_cons_self
  exact absurd (toNat_of_digitValue? hv).1 (by decide)

theorem readNumber?_of_numeral {base bound n : Nat} {s : List Char} (h : Numeral base s n)
    (hbound : n < bound) : readNumber? base bound s = some n := by
  have hne : s.isEmpty = false := List.isEmpty_eq_false_iff.mpr h.ne_nil
  unfold readNumber?
  split
  · exact absurd h not_numeral_plus
  · simp only [hne, Bool.false_eq_true, if_false]
    exact readDigits?_of_numeral h hbound

theorem readDigits?_lt {base bound acc n : Nat} {s : List Char} (hacc : acc < bound)
    (h : readDigits? base bound acc s = some n) : n < bound := by
  induction s generalizing acc with
  | nil =>
    obtain rfl := Option.some.inj h
    exact hacc
  | cons c s ih =>
    simp only [readDigits?, Option.bind_eq_some_iff] at h
    obtain ⟨v, -, h⟩ := h
    split at h
    · rename_i hlt
      exact ih hlt h
    · cases h

theorem readNumber?_lt {base bound n : Nat} {s : List Char} (hbound : 0 < bound)
    (h : readNumber? base bound s = some n) : n < bound := by
  simp only [readNumber?, Option.ite_none_left_eq_some] at h
  exact readDigits?_lt hbound h.2

-- ---------------------------------------------------------------------------
-- Nothing but numerals
-- ---------------------------------------------------------------------------

theorem readDigits?_singleton_eq_some {base bound acc n : Nat} {c : Char}
    (h : readDigits? base bound acc [c] = some n) :
    ∃ v, digitValue? base c = some v ∧ n = acc * base + v := by
  simp only [readDigits?, Option.bind_eq_some_iff, Option.ite_none_right_eq_some,
    Option.some.injEq] at h
  obtain ⟨v, hv, -, rfl⟩ := h
  exact ⟨v, hv, rfl⟩

theorem numeral_of_readDigits? {base bound n : Nat} {s : List Char} (hne : s ≠ [])
    (h : readDigits? base bound 0 s = some n) : Numeral base s n := by
  induction s using List.reverseRecOn generalizing n with
  | nil => exact absurd rfl hne
  | append_singleton s c ih =>
    rw [readDigits?_append, Option.bind_eq_some_iff] at h
    obtain ⟨m, hm, hn⟩ := h
    obtain ⟨v, hv, rfl⟩ := readDigits?_singleton_eq_some hn
    by_cases hs : s = []
    · subst hs
      obtain rfl : 0 = m := Option.some.inj hm
      rw [Nat.zero_mul, Nat.zero_add]
      exact .digit hv
    · exact .more (ih hs hm) hv

/-- A plus sign, or none. -/
def plusSign (plus : Bool) : List Char := if plus then ['+'] else []

theorem plusSign_append_inj {plus plus' : Bool} {s t : List Char} (hs : '+' ∉ s) (ht : '+' ∉ t)
    (h : plusSign plus ++ s = plusSign plus' ++ t) : plus = plus' ∧ s = t := by
  cases plus <;> cases plus' <;> simp only [plusSign, if_true, Bool.false_eq_true, if_false,
    List.nil_append, List.singleton_append] at h
  · exact ⟨rfl, h⟩
  · exact absurd (h ▸ List.mem_cons_self) hs
  · exact absurd (h ▸ List.mem_cons_self) ht
  · exact ⟨rfl, (List.cons.inj h).2⟩

theorem readNumber?_eq_some_iff {base bound n : Nat} {s : List Char} (hbound : 0 < bound) :
    readNumber? base bound s = some n ↔
      n < bound ∧ ∃ plus digits, s = plusSign plus ++ digits ∧ Numeral base digits n := by
  constructor
  · intro h
    refine ⟨readNumber?_lt hbound h, ?_⟩
    unfold readNumber? at h
    split at h <;> simp only [Option.ite_none_left_eq_some, List.isEmpty_iff] at h
    · rename_i rest
      exact ⟨true, rest, rfl, numeral_of_readDigits? h.1 h.2⟩
    · exact ⟨false, s, rfl, numeral_of_readDigits? h.1 h.2⟩
  · rintro ⟨hn, plus, digits, rfl, hdigits⟩
    cases plus with
    | false => exact readNumber?_of_numeral hdigits hn
    | true =>
      have hempty : digits.isEmpty = false := List.isEmpty_eq_false_iff.mpr hdigits.ne_nil
      show (if digits.isEmpty then none else readDigits? base bound 0 digits) = some n
      rw [hempty]
      exact readDigits?_of_numeral hdigits hn

theorem numeral_singleton_iff {base n : Nat} {c : Char} :
    Numeral base [c] n ↔ digitValue? base c = some n := by
  refine ⟨fun h => ?_, .digit⟩
  obtain ⟨v, hv, rfl⟩ := readDigits?_singleton_eq_some
    (readDigits?_of_numeral h (Nat.lt_succ_self n))
  rwa [Nat.zero_mul, Nat.zero_add]

theorem numeral_concat_iff {base n : Nat} {s : List Char} {c : Char} (hne : s ≠ []) :
    Numeral base (s ++ [c]) n ↔
      ∃ m v, Numeral base s m ∧ digitValue? base c = some v ∧ n = m * base + v := by
  constructor
  · intro h
    have hread := readDigits?_of_numeral h (Nat.lt_succ_self n)
    rw [readDigits?_append, Option.bind_eq_some_iff] at hread
    obtain ⟨m, hm, hn⟩ := hread
    obtain ⟨v, hv, rfl⟩ := readDigits?_singleton_eq_some hn
    exact ⟨m, v, numeral_of_readDigits? hne hm, hv, rfl⟩
  · rintro ⟨m, v, hm, hv, rfl⟩
    exact .more hm hv

-- ---------------------------------------------------------------------------
-- The two bases
-- ---------------------------------------------------------------------------

theorem digitValue?_ten_iff {c : Char} {v : Nat} :
    digitValue? 10 c = some v ↔ c.isDigit ∧ v = c.toNat - '0'.toNat := by
  have hdigit : c.isDigit = true ↔ 0x30 ≤ c.toNat ∧ c.toNat ≤ 0x39 := by
    simp [Char.isDigit, UInt32.le_iff_toNat_le]
  have hzero : '0'.toNat = 0x30 := rfl
  simp only [digitValue?, Option.ite_none_right_eq_some, Option.some.injEq, hdigit, hzero]
  constructor
  · rintro ⟨hlt, rfl⟩
    split at hlt <;> grind
  · rintro ⟨⟨hlo, hhi⟩, rfl⟩
    rw [if_pos ⟨hlo, hhi⟩]
    omega

theorem ofDigitChars_concat (s : List Char) (c : Char) :
    Nat.ofDigitChars 10 (s ++ [c]) 0 =
      Nat.ofDigitChars 10 s 0 * 10 + (c.toNat - '0'.toNat) := by
  rw [Nat.ofDigitChars, List.foldl_append, Nat.mul_comm]
  rfl

/-- Decimal numerals are the runs of the ten digits. -/
theorem numeral_ten_iff {s : List Char} {n : Nat} :
    Numeral 10 s n ↔ s ≠ [] ∧ (∀ c ∈ s, c.isDigit) ∧ n = Nat.ofDigitChars 10 s 0 := by
  constructor
  · intro h
    refine ⟨h.ne_nil, fun c hc => ?_, ?_⟩
    · obtain ⟨v, hv⟩ := h.exists_digit c hc
      exact (digitValue?_ten_iff.mp hv).1
    · induction h with
      | digit h =>
        obtain ⟨-, rfl⟩ := digitValue?_ten_iff.mp h
        exact (Nat.zero_add _).symm
      | more hs h ih =>
        obtain ⟨-, rfl⟩ := digitValue?_ten_iff.mp h
        rw [ofDigitChars_concat, ih]
  · rintro ⟨hne, hdigits, rfl⟩
    induction s using List.reverseRecOn with
    | nil => exact absurd rfl hne
    | append_singleton s c ih =>
      have hc := digitValue?_ten_iff.mpr ⟨hdigits c (by simp), rfl⟩
      rw [ofDigitChars_concat]
      by_cases hs : s = []
      · subst hs
        rw [Nat.ofDigitChars_nil, Nat.zero_mul, Nat.zero_add]
        exact .digit hc
      · exact .more (ih hs fun d hd => hdigits d (List.mem_append_left _ hd)) hc

/-- The hex digits of either case, each at the place of its value. -/
def HexDigit (c : Char) (v : Nat) : Prop :=
  "0123456789abcdef".toList[v]? = some c ∨ "0123456789ABCDEF".toList[v]? = some c

theorem HexDigit.digitValue? {c : Char} {v : Nat} (h : HexDigit c v) :
    Text.digitValue? 16 c = some v := by
  have hread : ∀ digits ∈ ["0123456789abcdef".toList, "0123456789ABCDEF".toList],
      digits.length = 16 ∧ ∀ v < 16, digits[v]?.bind (Text.digitValue? 16) = some v := by decide
  have hvalue : ∀ digits ∈ ["0123456789abcdef".toList, "0123456789ABCDEF".toList],
      digits[v]? = some c → Text.digitValue? 16 c = some v := by
    intro digits hmem hc
    obtain ⟨hlength, hdigits⟩ := hread digits hmem
    obtain ⟨hv, -⟩ := List.getElem?_eq_some_iff.mp hc
    have hbind := hdigits v (hlength ▸ hv)
    rwa [hc] at hbind
  rcases h with h | h
  · exact hvalue _ List.mem_cons_self h
  · exact hvalue _ (List.mem_cons_of_mem _ List.mem_cons_self) h

theorem hexDigit_of_digitValue? {c : Char} {v : Nat} (h : digitValue? 16 c = some v) :
    HexDigit c v := by
  have hascii : ∀ n < 0x67, ∀ v ∈ digitValue? 16 (Char.ofNat n), HexDigit (Char.ofNat n) v := by
    unfold HexDigit
    decide
  have hlt : c.toNat < 0x67 := Nat.lt_succ_of_le (toNat_of_digitValue? h).2
  have hc := hascii c.toNat hlt v
  rw [Char.ofNat_toNat] at hc
  exact hc h

theorem toNat_toLower (c : Char) :
    c.toLower.toNat = if 0x41 ≤ c.toNat ∧ c.toNat ≤ 0x5A then c.toNat + 0x20 else c.toNat := by
  unfold Char.toLower
  simp only [ge_iff_le, UInt32.le_iff_toNat_le]
  split
  · rename_i h
    have hupper : 0x41 ≤ c.toNat ∧ c.toNat ≤ 0x5A := h
    have hsum : c.toNat + 0x20 < 2 ^ 32 := by omega
    rw [if_pos hupper]
    exact (UInt32.toNat_add c.val 0x20).trans (Nat.mod_eq_of_lt hsum)
  · rename_i h
    have hother : ¬ (0x41 ≤ c.toNat ∧ c.toNat ≤ 0x5A) := h
    rw [if_neg hother]

/-- Digits have the same value in either case. -/
theorem digitValue?_toLower (base : Nat) (c : Char) :
    digitValue? base c.toLower = digitValue? base c := by
  unfold digitValue?
  rw [toNat_toLower]
  dsimp only
  grind

theorem HexDigit.congr {c d : Char} {v : Nat} (hd : HexDigit d v) (h : c.toLower = d.toLower) :
    HexDigit c v := by
  refine hexDigit_of_digitValue? ?_
  rw [← digitValue?_toLower, h, digitValue?_toLower, hd.digitValue?]

/-- No other character is a letter-case form of one that is no letter. -/
theorem eq_of_toLower_eq {c d : Char} (h : c.toLower = d.toLower)
    (hd : ¬ (0x41 ≤ d.toNat ∧ d.toNat ≤ 0x5A) ∧ ¬ (0x61 ≤ d.toNat ∧ d.toNat ≤ 0x7A)) :
    c = d := by
  have hnat := congrArg Char.toNat h
  rw [toNat_toLower, toNat_toLower, if_neg hd.1] at hnat
  refine Char.toNat_inj.mp ?_
  split at hnat <;> omega

end BleCapture.Text
