import BleCapture.Proofs.Text.Blank
import BleCapture.Proofs.Text.Number
import BleCapture.Text.Hex

/-!
# Hex digits that are read back

A text is read as bytes exactly when every two of its digits, of either case,
spell one of them. Bytes written as hex spell themselves, and a number below 256
takes two digits.
-/

namespace BleCapture.Text

/-- Printing ASCII characters other than the blank. -/
def IsGraphic (c : Char) : Prop := 0x20 < c.toNat ∧ c.toNat < 0x7F

instance : DecidablePred IsGraphic :=
  fun c => inferInstanceAs (Decidable (0x20 < c.toNat ∧ c.toNat < 0x7F))

theorem IsGraphic.not_blank {c : Char} (h : IsGraphic c) : isBlank c = false := by
  obtain ⟨hlo, hhi⟩ := h
  simp only [isBlank, Bool.or_eq_false_iff, Bool.and_eq_false_iff, decide_eq_false_iff_not,
    beq_eq_false_iff_ne]
  omega

theorem visible_of_graphic {s : List Char} (h : ∀ c ∈ s, IsGraphic c) : Visible s :=
  fun c hc => (h c hc).not_blank

theorem graphic_of_digitValue? {base v : Nat} {c : Char} (h : digitValue? base c = some v) :
    IsGraphic c := by
  obtain ⟨hlo, hhi⟩ := toNat_of_digitValue? h
  exact ⟨by omega, by omega⟩

theorem isBlank_of_isDigit {c : Char} (h : c.isDigit) : isBlank c = false :=
  (graphic_of_digitValue? (digitValue?_ten_iff.mpr ⟨h, rfl⟩)).not_blank

theorem encode_of_ascii {s : List Char} (h : ∀ c ∈ s, c.toNat ≤ 0x7F) :
    Utf8.encode s = s.map fun c => UInt8.ofNat c.toNat := by
  induction s with
  | nil => rfl
  | cons c rest ih =>
    have hc : c.toNat ≤ 0x7F := h c List.mem_cons_self
    have hcons : Utf8.encode (c :: rest) = String.utf8EncodeChar c ++ Utf8.encode rest :=
      List.flatMap_cons
    rw [hcons, ih fun d hd => h d (List.mem_cons_of_mem _ hd)]
    simp [String.utf8EncodeChar, hc]

theorem encodedLength_eq (s : List Char) : Utf8.encodedLength s = (Utf8.encode s).length := by
  induction s with
  | nil => rfl
  | cons c s ih =>
    rw [Utf8.encode, List.flatMap_cons, List.length_append, String.length_utf8EncodeChar]
    exact congrArg (c.utf8Size + ·) ih

theorem ofNat_toNat_ascii {c : Char} (h : c.toNat ≤ 0x7F) :
    Char.ofNat (UInt8.ofNat c.toNat).toNat = c := by
  have hlt : c.toNat < 256 := by omega
  rw [UInt8.toNat_ofNat_of_lt' hlt]
  exact Char.ofNat_toNat c

theorem toNat_ofNat_byte (b : UInt8) : (Char.ofNat b.toNat).toNat = b.toNat := by
  have hb : b.toNat < 256 := b.toNat_lt_size
  rw [Char.ofNat, dif_pos (Or.inl (by omega))]
  rfl

/-- A character past ASCII has a byte past ASCII. -/
theorem exists_high_byte {c : Char} (h : 0x7F < c.toNat) :
    ∃ b ∈ String.utf8EncodeChar c, 0x80 ≤ b.toNat := by
  have hvalid : c.val.toNat < 0xD800 ∨ (0xDFFF < c.val.toNat ∧ c.val.toNat < 0x110000) := c.valid
  have hv : 0x7F < c.val.toNat := h
  have key : ∀ n, 0x80 ≤ n → n < 256 → 0x80 ≤ (UInt8.ofNat n).toNat := by
    intro n hlo hhi
    rwa [UInt8.toNat_ofNat_of_lt' hhi]
  unfold String.utf8EncodeChar
  generalize c.val.toNat = v at hvalid hv
  dsimp only
  split
  · omega
  · split
    · exact ⟨_, List.mem_cons_self, key _ (by omega) (by omega)⟩
    · split
      · exact ⟨_, List.mem_cons_self, key _ (by omega) (by omega)⟩
      · exact ⟨_, List.mem_cons_self, key _ (by omega) (by omega)⟩

theorem ascii_of_encode {s : List Char} (h : ∀ b ∈ Utf8.encode s, b.toNat < 0x80) :
    ∀ c ∈ s, c.toNat ≤ 0x7F := by
  intro c hc
  rcases Nat.lt_or_ge 0x7F c.toNat with hhigh | hlow
  · obtain ⟨b, hb, hge⟩ := exists_high_byte hhigh
    have hlt := h b (List.mem_flatMap.mpr ⟨c, hc, hb⟩)
    omega
  · exact hlow

namespace Hex

theorem digitValue?_digit {n : Nat} (h : n < 16) : digitValue? 16 (digit n) = some n := by
  have key : ∀ n < 16, digitValue? 16 (digit n) = some n := by decide
  exact key n h

theorem high_lt (b : UInt8) : b.toNat / 16 < 16 := by
  have := b.toNat_lt_size
  simp only [UInt8.size] at this
  omega

theorem low_lt (b : UInt8) : b.toNat % 16 < 16 := Nat.mod_lt _ (by decide)

-- ---------------------------------------------------------------------------
-- Texts that spell bytes
-- ---------------------------------------------------------------------------

/-- Every two digits of the text, of either case, spell one byte. -/
inductive Spells : List Char → List UInt8 → Prop
  | nil : Spells [] []
  | cons {hi lo : Char} {h l : Nat} {s : List Char} {bytes : List UInt8}
      (hhi : digitValue? 16 hi = some h) (hlo : digitValue? 16 lo = some l)
      (hs : Spells s bytes) : Spells (hi :: lo :: s) (UInt8.ofNat (16 * h + l) :: bytes)

namespace Spells

theorem exists_digit {s : List Char} {bytes : List UInt8} (h : Spells s bytes) :
    ∀ c ∈ s, ∃ v, digitValue? 16 c = some v := by
  induction h with
  | nil => simp
  | cons hhi hlo _ ih => exact List.forall_mem_cons.mpr ⟨⟨_, hhi⟩, List.forall_mem_cons.mpr
      ⟨⟨_, hlo⟩, ih⟩⟩

theorem graphic {s : List Char} {bytes : List UInt8} (h : Spells s bytes) :
    ∀ c ∈ s, IsGraphic c := by
  intro c hc
  obtain ⟨v, hv⟩ := h.exists_digit c hc
  exact graphic_of_digitValue? hv

theorem length_eq {s : List Char} {bytes : List UInt8} (h : Spells s bytes) :
    s.length = 2 * bytes.length := by
  induction h with
  | nil => rfl
  | cons _ _ _ ih =>
    simp only [List.length_cons, ih]
    omega

end Spells

theorem join_digits (h l : Nat) :
    UInt8.ofNat h * 16 + UInt8.ofNat l = UInt8.ofNat (16 * h + l) := by
  rw [UInt8.ofNat_add, UInt8.ofNat_mul, UInt8.mul_comm]
  rfl

theorem byteDigit_ofNat (position : Nat) {c : Char} {v : Nat} (h : digitValue? 16 c = some v) :
    byteDigit position (UInt8.ofNat c.toNat) = .ok (UInt8.ofNat v) := by
  have hc : c.toNat ≤ 0x7F := Nat.le_of_lt (graphic_of_digitValue? h).2
  rw [byteDigit, ofNat_toNat_ascii hc, h]

theorem decodePairs_of_spells (position : Nat) {s : List Char} {bytes : List UInt8}
    (h : Spells s bytes) :
    decodePairs position (s.map fun c => UInt8.ofNat c.toNat) = .ok bytes := by
  induction h generalizing position with
  | nil => rfl
  | cons hhi hlo _ ih =>
    rw [List.map_cons, List.map_cons, decodePairs, byteDigit_ofNat _ hhi, byteDigit_ofNat _ hlo,
      ih]
    simp only [bind, Except.bind, pure, Except.pure, join_digits]

theorem decode_of_spells {s : List Char} {bytes : List UInt8} (h : Spells s bytes) :
    decode s = .ok bytes := by
  have hascii : ∀ c ∈ s, c.toNat ≤ 0x7F := fun c hc => Nat.le_of_lt (h.graphic c hc).2
  have heven : ¬ (s.map fun c => UInt8.ofNat c.toNat).length % 2 = 1 := by
    rw [List.length_map, h.length_eq]
    omega
  rw [decode, encode_of_ascii hascii]
  simp only [heven, if_false]
  exact decodePairs_of_spells 0 h

theorem exists_digit_of_byteDigit {position : Nat} {b d : UInt8}
    (h : byteDigit position b = .ok d) :
    ∃ v, digitValue? 16 (Char.ofNat b.toNat) = some v ∧ d = UInt8.ofNat v := by
  unfold byteDigit at h
  split at h
  · rename_i v hv
    exact ⟨v, hv, (Except.ok.inj h).symm⟩
  · cases h

/-- Bytes that are read in pairs are the codes of digits. -/
theorem spells_of_decodePairs {position : Nat} {bs bytes : List UInt8}
    (heven : bs.length % 2 = 0) (h : decodePairs position bs = .ok bytes) :
    Spells (bs.map fun b => Char.ofNat b.toNat) bytes := by
  induction position, bs using decodePairs.induct generalizing bytes with
  | case1 position hi lo rest ih =>
    simp only [decodePairs] at h
    cases hhi : byteDigit position hi with
    | error e => rw [hhi] at h; cases h
    | ok d =>
      cases hlo : byteDigit (position + 1) lo with
      | error e => rw [hhi, hlo] at h; cases h
      | ok e =>
        cases hrest : decodePairs (position + 2) rest with
        | error e => rw [hhi, hlo, hrest] at h; cases h
        | ok tail =>
          rw [hhi, hlo, hrest] at h
          obtain rfl : (d * 16 + e) :: tail = bytes := Except.ok.inj h
          obtain ⟨v, hv, rfl⟩ := exists_digit_of_byteDigit hhi
          obtain ⟨w, hw, rfl⟩ := exists_digit_of_byteDigit hlo
          rw [join_digits]
          refine .cons hv hw (ih ?_ hrest)
          simp only [List.length_cons] at heven
          omega
  | case2 bs position hshort =>
    match bs, hshort with
    | [], _ =>
      obtain rfl : [] = bytes := Except.ok.inj h
      exact .nil
    | [b], _ => simp at heven
    | b :: c :: rest, hshort => exact absurd rfl (hshort b c rest)

theorem spells_of_decode {s : List Char} {bytes : List UInt8} (h : decode s = .ok bytes) :
    Spells s bytes := by
  unfold decode at h
  dsimp only at h
  split at h
  · cases h
  · rename_i hodd
    have hpairs := spells_of_decodePairs (by omega) h
    have hlow : ∀ b ∈ Utf8.encode s, b.toNat < 0x80 := by
      intro b hb
      obtain ⟨v, hv⟩ := hpairs.exists_digit _ (List.mem_map_of_mem hb)
      have hle := (toNat_of_digitValue? hv).2
      rw [toNat_ofNat_byte] at hle
      omega
    have hascii := ascii_of_encode hlow
    have hback : ((s.map fun c => UInt8.ofNat c.toNat).map fun b => Char.ofNat b.toNat) = s := by
      rw [List.map_map]
      exact (List.map_congr_left fun c hc => ofNat_toNat_ascii (hascii c hc)).trans
        (List.map_id' s)
    rwa [encode_of_ascii hascii, hback] at hpairs

/-- The reader of hex digits gives the bytes that a text spells, and no others. -/
theorem decode_eq_ok_iff {s : List Char} {bytes : List UInt8} :
    decode s = .ok bytes ↔ Spells s bytes :=
  ⟨spells_of_decode, decode_of_spells⟩

theorem spells_encode (bytes : List UInt8) : Spells (encode bytes) bytes := by
  induction bytes with
  | nil => exact .nil
  | cons b rest ih =>
    have hcons : encode (b :: rest) = digit (b.toNat / 16) :: digit (b.toNat % 16) :: encode rest :=
      rfl
    have hb : UInt8.ofNat (16 * (b.toNat / 16) + b.toNat % 16) = b := by
      rw [Nat.div_add_mod, UInt8.ofNat_toNat]
    have hspells := Spells.cons (digitValue?_digit (high_lt b)) (digitValue?_digit (low_lt b)) ih
    rwa [hb, ← hcons] at hspells

theorem decode_encode (bytes : List UInt8) : decode (encode bytes) = .ok bytes :=
  decode_of_spells (spells_encode bytes)

end Hex

/-- A number below 256 in two digits. -/
theorem lowerHex_two {n : Nat} (h : n < 256) :
    lowerHex 2 n = [Hex.digit (n / 16), Hex.digit (n % 16)] := by
  unfold lowerHex padded Hex.digit
  by_cases hn : n < 16
  · have hzero : n / 16 = 0 := Nat.div_eq_of_lt hn
    rw [Nat.toDigits_of_lt_base hn, Nat.mod_eq_of_lt hn, hzero]
    rfl
  · rw [Nat.toDigits_of_base_le (by decide) (Nat.not_lt.mp hn),
      Nat.toDigits_of_lt_base (by omega)]
    rfl

theorem exists_digit_of_mem_toDigits {n : Nat} {c : Char} (h : c ∈ Nat.toDigits 16 n) :
    ∃ d < 16, c = Hex.digit d := by
  induction n using Nat.strongRecOn with
  | ind n ih =>
    rw [Nat.toDigits_eq_if (by decide)] at h
    split at h
    · rename_i hlt
      exact ⟨n, hlt, List.mem_singleton.mp h⟩
    · rename_i hge
      rcases List.mem_append.mp h with h | h
      · exact ih (n / 16) (by omega) h
      · exact ⟨n % 16, Nat.mod_lt n (by decide), List.mem_singleton.mp h⟩

theorem exists_digit_of_mem_upperHex {width n : Nat} {c : Char} (h : c ∈ upperHex width n) :
    ∃ d < 16, c = (Hex.digit d).toUpper := by
  obtain ⟨d, hd, rfl⟩ := List.mem_map.mp h
  rcases List.mem_append.mp hd with hd | hd
  · exact ⟨0, by decide, by rw [List.eq_of_mem_replicate hd]; rfl⟩
  · obtain ⟨k, hk, rfl⟩ := exists_digit_of_mem_toDigits hd
    exact ⟨k, hk, rfl⟩

end BleCapture.Text
