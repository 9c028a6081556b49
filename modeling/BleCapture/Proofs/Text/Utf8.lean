import BleCapture.Text.Utf8

/-!
# Decoding what was encoded

The decoder never fails, but on the encoding of a text it gives back that text,
and the encoding of a character other than the newline holds no newline byte. In
any input a newline byte is a newline and ends whatever was open before it, so
lines can be decoded one by one.
-/

namespace BleCapture.Text.Utf8

theorem lead_ofNat {n : Nat} (h : n < 256) :
    lead (UInt8.ofNat n) =
      if n < 0x80 then .char (Char.ofNat n)
      else if n < 0xC2 then .invalid
      else if n < 0xE0 then .sequence ⟨1, 0x80, 0xBF, n - 0xC0⟩
      else if n = 0xE0 then .sequence ⟨2, 0xA0, 0xBF, 0⟩
      else if n = 0xED then .sequence ⟨2, 0x80, 0x9F, n - 0xE0⟩
      else if n < 0xF0 then .sequence ⟨2, 0x80, 0xBF, n - 0xE0⟩
      else if n = 0xF0 then .sequence ⟨3, 0x90, 0xBF, 0⟩
      else if n < 0xF4 then .sequence ⟨3, 0x80, 0xBF, n - 0xF0⟩
      else if n = 0xF4 then .sequence ⟨3, 0x80, 0x8F, n - 0xF0⟩
      else .invalid := by
  have hn : (UInt8.ofNat n).toNat = n := UInt8.toNat_ofNat_of_lt' h
  simp only [lead, UInt8.lt_iff_toNat_lt, ← UInt8.toNat_inj, hn]
  rfl

theorem decodeFrom_sequence {b : UInt8} {p : Pending} (h : lead b = .sequence p)
    (rest : List UInt8) : decodeFrom none (b :: rest) = decodeFrom (some p) rest := by
  simp [decodeFrom, step, h]

theorem decodeFrom_char {b : UInt8} {c : Char} (h : lead b = .char c) (rest : List UInt8) :
    decodeFrom none (b :: rest) = c :: decodeFrom none rest := by
  simp [decodeFrom, step, h]

section
variable {p : Pending} {n : Nat} (hn : n < 256) (hlow : p.low.toNat ≤ n)
  (hhigh : n ≤ p.high.toNat) (rest : List UInt8)
include hn hlow hhigh

theorem decodeFrom_last (howed : p.owed = 1) :
    decodeFrom (some p) (UInt8.ofNat n :: rest) =
      Char.ofNat (p.value * 64 + (n - 0x80)) :: decodeFrom none rest := by
  have hb : (UInt8.ofNat n).toNat = n := UInt8.toNat_ofNat_of_lt' hn
  have hin : p.low ≤ UInt8.ofNat n ∧ UInt8.ofNat n ≤ p.high := by
    rw [UInt8.le_iff_toNat_le, UInt8.le_iff_toNat_le, hb]
    exact ⟨hlow, hhigh⟩
  simp [decodeFrom, step, hin, howed, Nat.mod_eq_of_lt hn]

theorem decodeFrom_continue (howed : p.owed ≠ 1) :
    decodeFrom (some p) (UInt8.ofNat n :: rest) =
      decodeFrom (some ⟨p.owed - 1, 0x80, 0xBF, p.value * 64 + (n - 0x80)⟩) rest := by
  have hb : (UInt8.ofNat n).toNat = n := UInt8.toNat_ofNat_of_lt' hn
  have hin : p.low ≤ UInt8.ofNat n ∧ UInt8.ofNat n ≤ p.high := by
    rw [UInt8.le_iff_toNat_le, UInt8.le_iff_toNat_le, hb]
    exact ⟨hlow, hhigh⟩
  simp [decodeFrom, step, hin, howed, Nat.mod_eq_of_lt hn]

end

-- The lead byte of a character of two, three or four bytes leaves its upper
-- bits, and lets the second byte of the character pass.

theorem lead_two {v : Nat} (hlo : 0x80 ≤ v) (hhi : v < 0x800) :
    lead (UInt8.ofNat (v / 64 % 0x20 + 0xC0)) = .sequence ⟨1, 0x80, 0xBF, v / 64⟩ := by
  rw [lead_ofNat (by omega), if_neg (by omega), if_neg (by omega), if_pos (by omega)]
  have hbits : v / 64 % 0x20 + 0xC0 - 0xC0 = v / 64 := by omega
  rw [hbits]

theorem lead_three {v : Nat} (hlo : 0x800 ≤ v) (hhi : v < 0x10000)
    (hvalid : v < 0xD800 ∨ 0xDFFF < v) :
    ∃ low high, lead (UInt8.ofNat (v / 4096 % 0x10 + 0xE0)) = .sequence ⟨2, low, high, v / 4096⟩ ∧
      low.toNat ≤ v / 64 % 0x40 + 0x80 ∧ v / 64 % 0x40 + 0x80 ≤ high.toNat := by
  have hbits : v / 4096 % 0x10 + 0xE0 - 0xE0 = v / 4096 := by omega
  rw [lead_ofNat (by omega), if_neg (by omega), if_neg (by omega), if_neg (by omega)]
  split
  · rename_i h
    have hzero : v / 4096 = 0 := by omega
    refine ⟨0xA0, 0xBF, by rw [hzero], ?_, ?_⟩
    · change 0xA0 ≤ _
      omega
    · change _ ≤ 0xBF
      omega
  · split
    · refine ⟨0x80, 0x9F, by rw [hbits], ?_, ?_⟩
      · change 0x80 ≤ _
        omega
      · change _ ≤ 0x9F
        omega
    · rw [if_pos (by omega)]
      refine ⟨0x80, 0xBF, by rw [hbits], ?_, ?_⟩
      · change 0x80 ≤ _
        omega
      · change _ ≤ 0xBF
        omega

theorem lead_four {v : Nat} (hlo : 0x10000 ≤ v) (hhi : v < 0x110000) :
    ∃ low high,
      lead (UInt8.ofNat (v / 262144 % 0x08 + 0xF0)) = .sequence ⟨3, low, high, v / 262144⟩ ∧
      low.toNat ≤ v / 4096 % 0x40 + 0x80 ∧ v / 4096 % 0x40 + 0x80 ≤ high.toNat := by
  have hbits : v / 262144 % 0x08 + 0xF0 - 0xF0 = v / 262144 := by omega
  rw [lead_ofNat (by omega), if_neg (by omega), if_neg (by omega), if_neg (by omega),
    if_neg (by omega), if_neg (by omega), if_neg (by omega)]
  split
  · rename_i h
    have hzero : v / 262144 = 0 := by omega
    refine ⟨0x90, 0xBF, by rw [hzero], ?_, ?_⟩
    · change 0x90 ≤ _
      omega
    · change _ ≤ 0xBF
      omega
  · split
    · refine ⟨0x80, 0xBF, by rw [hbits], ?_, ?_⟩
      · change 0x80 ≤ _
        omega
      · change _ ≤ 0xBF
        omega
    · rw [if_pos (by omega)]
      refine ⟨0x80, 0x8F, by rw [hbits], ?_, ?_⟩
      · change 0x80 ≤ _
        omega
      · change _ ≤ 0x8F
        omega

/-- From the start of a character the decoder gives that character. -/
theorem decodeFrom_char_append (c : Char) (rest : List UInt8) :
    decodeFrom none (String.utf8EncodeChar c ++ rest) = c :: decodeFrom none rest := by
  have hvalid : c.val.toNat < 0xD800 ∨ (0xDFFF < c.val.toNat ∧ c.val.toNat < 0x110000) := c.valid
  have hc : Char.ofNat c.val.toNat = c := Char.ofNat_toNat c
  unfold String.utf8EncodeChar
  generalize c.val.toNat = v at hvalid hc ⊢
  dsimp only
  split
  · have hlead : lead (UInt8.ofNat v) = .char c := by
      rw [lead_ofNat (by omega), if_pos (by omega), hc]
    exact decodeFrom_char hlead rest
  · split
    · have hlead := lead_two (v := v) (by omega) (by omega)
      have hbits : v / 64 * 64 + (v % 0x40 + 0x80 - 0x80) = v := by omega
      simp only [List.cons_append, List.nil_append]
      rw [decodeFrom_sequence hlead, decodeFrom_last (by omega) (by simp) (by simp; omega) rest rfl]
      simp only [hbits, hc]
    · split
      · obtain ⟨low, high, hlead, hlow, hhigh⟩ :=
          lead_three (v := v) (by omega) (by omega) (by omega)
        have hbits : (v / 4096 * 64 + (v / 64 % 0x40 + 0x80 - 0x80)) * 64 +
            (v % 0x40 + 0x80 - 0x80) = v := by omega
        simp only [List.cons_append, List.nil_append]
        rw [decodeFrom_sequence hlead, decodeFrom_continue (by omega) hlow hhigh _ (by simp),
          decodeFrom_last (by omega) (by simp) (by simp; omega) rest rfl]
        simp only [hbits, hc]
      · obtain ⟨low, high, hlead, hlow, hhigh⟩ := lead_four (v := v) (by omega) (by omega)
        have hbits : ((v / 262144 * 64 + (v / 4096 % 0x40 + 0x80 - 0x80)) * 64 +
            (v / 64 % 0x40 + 0x80 - 0x80)) * 64 + (v % 0x40 + 0x80 - 0x80) = v := by omega
        simp only [List.cons_append, List.nil_append]
        rw [decodeFrom_sequence hlead, decodeFrom_continue (by omega) hlow hhigh _ (by simp),
          decodeFrom_continue (by omega) (by simp) (by simp; omega) _ (by simp),
          decodeFrom_last (by omega) (by simp) (by simp; omega) rest rfl]
        simp only [hbits, hc]

theorem encode_append (s t : List Char) : encode (s ++ t) = encode s ++ encode t :=
  List.flatMap_append

theorem decode_encode (s : List Char) : decode (encode s) = s := by
  induction s with
  | nil => rfl
  | cons c rest ih =>
    have hcons : encode (c :: rest) = String.utf8EncodeChar c ++ encode rest :=
      List.flatMap_cons
    rw [decode, hcons, decodeFrom_char_append]
    exact congrArg (c :: ·) ih

theorem newline_not_mem_encode {s : List Char} (h : '\n' ∉ s) : (0x0A : UInt8) ∉ encode s := by
  intro hmem
  obtain ⟨c, hc, hb⟩ := List.mem_flatMap.mp hmem
  have hne : c.val.toNat ≠ 10 := by
    intro hv
    have hnl : c = '\n' := Char.ext (UInt32.toNat_inj.mp hv)
    exact h (hnl ▸ hc)
  have hvalid : c.val.toNat < 0xD800 ∨ (0xDFFF < c.val.toNat ∧ c.val.toNat < 0x110000) := c.valid
  unfold String.utf8EncodeChar at hb
  generalize c.val.toNat = v at hne hvalid hb
  dsimp only at hb
  -- Bytes of longer characters are all above the ASCII range.
  have key : ∀ n, n < 256 → (0x0A : UInt8) = UInt8.ofNat n → n = 10 := by
    intro n hn hb
    have hnat := congrArg UInt8.toNat hb
    rw [UInt8.toNat_ofNat_of_lt' hn] at hnat
    exact hnat.symm
  split at hb
  · exact hne (key v (by omega) (List.mem_singleton.mp hb))
  · split at hb
    · simp only [List.mem_cons, List.not_mem_nil, or_false] at hb
      rcases hb with hb | hb
      all_goals
        have := key _ (by omega) hb
        omega
    · split at hb
      · simp only [List.mem_cons, List.not_mem_nil, or_false] at hb
        rcases hb with hb | hb | hb
        all_goals
          have := key _ (by omega) hb
          omega
      · simp only [List.mem_cons, List.not_mem_nil, or_false] at hb
        rcases hb with hb | hb | hb | hb
        all_goals
          have := key _ (by omega) hb
          omega

/-- A byte gives a character or opens a sequence. -/
theorem step_shows (p : Option Pending) (b : UInt8) :
    (step p b).1 ≠ [] ∨ (step p b).2.isSome := by
  cases p with
  | none =>
    rw [step]
    split <;> simp
  | some p =>
    rw [step]
    split
    · dsimp only
      split <;> simp
    · split <;> simp

/-- Nothing that is read is lost without a trace: an open sequence that is cut off
shows as well. -/
theorem decodeFrom_ne_nil {p : Option Pending} {bytes : List UInt8}
    (h : p.isSome ∨ bytes ≠ []) : decodeFrom p bytes ≠ [] := by
  induction bytes generalizing p with
  | nil =>
    obtain ⟨p, rfl⟩ := Option.isSome_iff_exists.mp (h.resolve_right fun hne => hne rfl)
    exact List.cons_ne_nil _ _
  | cons b rest ih =>
    rw [decodeFrom]
    rcases step_shows p b with hshown | hopen
    · exact List.append_ne_nil_of_left_ne_nil hshown _
    · exact List.append_ne_nil_of_right_ne_nil _ (ih (.inl hopen))

-- ---------------------------------------------------------------------------
-- Newlines
-- ---------------------------------------------------------------------------

theorem ofNat_ne_newline {n : Nat} (h : n ≠ 0x0A) : Char.ofNat n ≠ '\n' := by
  by_cases hvalid : n.isValidChar
  · rw [Char.ofNat, dif_pos hvalid]
    exact fun heq => h (congrArg Char.toNat heq)
  · rw [Char.ofNat, dif_neg hvalid]
    decide

/-- A sequence that a newline byte cannot continue, and that becomes no newline. -/
structure Pending.AvoidsNewline (p : Pending) : Prop where
  low : 0x80 ≤ p.low.toNat
  least : 0x0A < p.value * 64 + (p.low.toNat - 0x80)

theorem avoidsNewline_of_lead {b : UInt8} {p : Pending} (h : lead b = .sequence p) :
    p.AvoidsNewline := by
  obtain ⟨n, hn, rfl⟩ : ∃ n, n < 256 ∧ b = UInt8.ofNat n :=
    ⟨b.toNat, b.toNat_lt, UInt8.ofNat_toNat.symm⟩
  rw [lead_ofNat hn] at h
  repeat' split at h
  all_goals first
    | cases h; done
    | obtain rfl := Lead.sequence.inj h
      constructor <;> simp <;> omega

theorem ne_newline_of_lead {b : UInt8} {c : Char} (h : lead b = .char c) (hb : b ≠ 0x0A) :
    c ≠ '\n' := by
  unfold lead at h
  split at h
  · obtain rfl := Lead.char.inj h
    exact ofNat_ne_newline fun hn => hb (UInt8.toNat_inj.mp hn)
  · repeat' split at h
    all_goals cases h

/-- What is open between two bytes of any input. -/
def AvoidsNewline (p : Option Pending) : Prop := ∀ q, p = some q → q.AvoidsNewline

theorem avoidsNewline_none : AvoidsNewline none := fun _ h => nomatch h

theorem avoidsNewline_some {p : Pending} (h : p.AvoidsNewline) : AvoidsNewline (some p) := by
  intro q hq
  obtain rfl := Option.some.inj hq
  exact h

theorem AvoidsNewline.step {p : Option Pending} (h : AvoidsNewline p) (b : UInt8) :
    AvoidsNewline (step p b).2 := by
  -- After a byte that starts something, what is open comes from a lead byte.
  cases p with
  | none =>
    rw [Utf8.step]
    split
    · exact avoidsNewline_none
    · rename_i hlead
      exact avoidsNewline_some (avoidsNewline_of_lead hlead)
    · exact avoidsNewline_none
  | some p =>
    obtain ⟨hlow, hleast⟩ := h p rfl
    rw [Utf8.step]
    split
    · rename_i hin
      dsimp only
      split
      · exact avoidsNewline_none
      · refine avoidsNewline_some ⟨Nat.le_refl 0x80, ?_⟩
        have hb : p.low.toNat ≤ b.toNat := hin.1
        change 0x0A < (p.value * 64 + (b.toNat - 0x80)) * 64 + (0x80 - 0x80)
        omega
    · split
      · exact avoidsNewline_none
      · rename_i hlead
        exact avoidsNewline_some (avoidsNewline_of_lead hlead)
      · exact avoidsNewline_none

theorem newline_not_mem_step {p : Option Pending} (h : AvoidsNewline p) {b : UInt8}
    (hb : b ≠ 0x0A) : '\n' ∉ (step p b).1 := by
  have hreplacement : '\n' ≠ replacement := by decide
  cases p with
  | none =>
    rw [step]
    split
    · rename_i hlead
      exact fun hmem => ne_newline_of_lead hlead hb (List.mem_singleton.mp hmem).symm
    · exact List.not_mem_nil
    · exact fun hmem => hreplacement (List.mem_singleton.mp hmem)
  | some p =>
    obtain ⟨hlow, hleast⟩ := h p rfl
    rw [step]
    split
    · rename_i hin
      have hb : p.low.toNat ≤ b.toNat := hin.1
      dsimp only
      split
      · refine fun hmem => ofNat_ne_newline ?_ (List.mem_singleton.mp hmem).symm
        omega
      · exact List.not_mem_nil
    · split
      · rename_i hlead
        simp [hreplacement, (ne_newline_of_lead hlead hb).symm]
      · exact fun hmem => hreplacement (List.mem_singleton.mp hmem)
      · simp [hreplacement]

/-- A newline byte ends whatever was open and is a newline. -/
theorem step_newline {p : Option Pending} (h : AvoidsNewline p) :
    step p 0x0A = (decodeFrom p [] ++ ['\n'], none) := by
  have hlead : lead 0x0A = .char '\n' := rfl
  cases p with
  | none => rfl
  | some p =>
    have hout : ¬ (p.low ≤ 0x0A ∧ 0x0A ≤ p.high) := by
      intro hin
      have hle : p.low.toNat ≤ 0x0A := hin.1
      have hlow := (h p rfl).low
      omega
    rw [step, if_neg hout]
    rfl

/-- No character reaches over a newline: the bytes in front of one are decoded by
themselves, and so are those behind it. -/
theorem decodeFrom_append_newline {p : Option Pending} (h : AvoidsNewline p)
    (line rest : List UInt8) :
    decodeFrom p (line ++ 0x0A :: rest) = decodeFrom p line ++ '\n' :: decodeFrom none rest := by
  induction line generalizing p with
  | nil => rw [List.nil_append, decodeFrom, step_newline h, List.append_assoc, List.singleton_append]
  | cons b line ih => rw [List.cons_append, decodeFrom, ih (h.step b), decodeFrom, List.append_assoc]

theorem newline_not_mem_decodeFrom {p : Option Pending} (h : AvoidsNewline p) {bytes : List UInt8}
    (hbytes : 0x0A ∉ bytes) : '\n' ∉ decodeFrom p bytes := by
  induction bytes generalizing p with
  | nil =>
    cases p with
    | none => exact List.not_mem_nil
    | some p => exact fun hmem => absurd (List.mem_singleton.mp hmem) (by decide)
  | cons b rest ih =>
    rw [List.mem_cons, not_or] at hbytes
    rw [decodeFrom, List.mem_append, not_or]
    exact ⟨newline_not_mem_step h (Ne.symm hbytes.1), ih (h.step b) hbytes.2⟩

theorem decode_append_newline (line rest : List UInt8) :
    decode (line ++ 0x0A :: rest) = decode line ++ '\n' :: decode rest :=
  decodeFrom_append_newline avoidsNewline_none line rest

theorem newline_not_mem_decode {bytes : List UInt8} (h : 0x0A ∉ bytes) : '\n' ∉ decode bytes :=
  newline_not_mem_decodeFrom avoidsNewline_none h

end BleCapture.Text.Utf8
