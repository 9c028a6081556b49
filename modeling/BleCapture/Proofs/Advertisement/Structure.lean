import BleCapture.Advertisement.Structure

/-!
# Entries of a payload and of its front

The first entry of a payload is its encoding in front of what follows, and the bytes
with which no entry begins are three kinds. Cutting a payload keeps exactly the entries
that end within the part that is left.
-/

namespace BleCapture.AdStructure

@[simp] theorem length_encode (s : AdStructure) : s.encode.length = s.data.length + 2 := rfl

theorem encode_append (s : AdStructure) (rest : List UInt8) :
    s.encode ++ rest = UInt8.ofNat (s.data.length + 1) :: s.type :: (s.data ++ rest) := rfl

theorem toNat_lengthByte {s : AdStructure} (h : s.data.length < 255) :
    (UInt8.ofNat (s.data.length + 1)).toNat = s.data.length + 1 :=
  UInt8.toNat_ofNat_of_lt' (by simp only [UInt8.size]; omega)

theorem next?_encode_append (s : AdStructure) (h : s.data.length < 255) (rest : List UInt8) :
    next? (s.encode ++ rest) = some (s, rest) := by
  rw [encode_append]
  simp only [next?, toNat_lengthByte h, Nat.add_sub_cancel, List.take_left, List.drop_left]
  rw [if_neg (by omega)]

theorem eq_encode_append_of_next? {p rest : List UInt8} {s : AdStructure}
    (h : next? p = some (s, rest)) : p = s.encode ++ rest ∧ s.data.length < 255 := by
  unfold next? at h
  split at h
  · rename_i length type body
    dsimp only at h
    split at h
    · simp at h
    · rename_i hok
      simp only [Option.some.injEq, Prod.mk.injEq] at h
      obtain ⟨rfl, rfl⟩ := h
      have hlt := length.toNat_lt_size
      simp only [UInt8.size] at hlt
      have hdata : (body.take (length.toNat - 1)).length = length.toNat - 1 := by
        simp only [List.length_take] at hok ⊢
        omega
      have hbyte : UInt8.ofNat (length.toNat - 1 + 1) = length := by
        rw [Nat.sub_add_cancel (by omega), UInt8.ofNat_toNat]
      refine ⟨?_, by rw [hdata]; omega⟩
      simp only [encode, hdata, hbyte, List.cons_append, List.take_append_drop]
  · simp at h

theorem parse_of_next? {p rest : List UInt8} {s : AdStructure} (h : next? p = some (s, rest)) :
    parse p = s :: parse rest := by
  rw [parse]
  split
  · rename_i s' rest' h'
    rw [h] at h'
    obtain ⟨rfl, rfl⟩ : s = s' ∧ rest = rest' := by simpa using h'
    rfl
  · rename_i h'
    rw [h] at h'
    cases h'

theorem parse_of_next?_none {p : List UInt8} (h : next? p = none) : parse p = [] := by
  rw [parse]
  split
  · rename_i h'
    rw [h] at h'
    cases h'
  · rfl

-- ---------------------------------------------------------------------------
-- Where no entry begins
-- ---------------------------------------------------------------------------

/-- Bytes with which no entry begins. -/
inductive Halts : List UInt8 → Prop
  | empty : Halts []
  | zero (rest : List UInt8) : Halts (0 :: rest)
  | overrun {length : UInt8} {rest : List UInt8} :
    rest.length < length.toNat → Halts (length :: rest)

theorem halts_cons_iff {length : UInt8} {rest : List UInt8} :
    Halts (length :: rest) ↔ length.toNat = 0 ∨ rest.length < length.toNat := by
  constructor
  · rintro (_ | _ | hover)
    · exact .inl rfl
    · exact .inr hover
  · rintro (hzero | hover)
    · obtain rfl : length = 0 := UInt8.toNat_inj.mp hzero
      exact .zero rest
    · exact .overrun hover

theorem next?_eq_none_iff (p : List UInt8) : next? p = none ↔ Halts p := by
  rcases p with _ | ⟨length, _ | ⟨type, rest⟩⟩
  · exact iff_of_true rfl .empty
  · exact iff_of_true rfl (halts_cons_iff.mpr (Nat.eq_zero_or_pos _))
  · rw [halts_cons_iff]
    simp only [next?, ite_eq_left_iff, reduceCtorEq, imp_false, Decidable.not_not,
      List.length_take, List.length_cons]
    omega

theorem parse_of_halts {p : List UInt8} (h : Halts p) : parse p = [] :=
  parse_of_next?_none ((next?_eq_none_iff p).mpr h)

theorem Halts.take {p : List UInt8} (h : Halts p) (k : Nat) : Halts (p.take k) := by
  cases k with
  | zero => exact .empty
  | succ k =>
    cases h with
    | empty => exact .empty
    | zero rest => exact .zero (rest.take k)
    | overrun hover => exact .overrun (Nat.lt_of_le_of_lt (List.length_take_le' k _) hover)

/-- Of an entry that is cut nothing is read. -/
theorem halts_take_encode {s : AdStructure} (h : s.data.length < 255) {k : Nat}
    (hk : k < s.encode.length) (rest : List UInt8) : Halts ((s.encode ++ rest).take k) := by
  rw [encode_append]
  cases k with
  | zero => exact .empty
  | succ k =>
    rw [length_encode] at hk
    refine .overrun ?_
    rw [toNat_lengthByte h, List.length_take]
    omega

/-- A payload as entries, each with a length byte that can state its length, and a
tail. -/
structure Splits (p : List UInt8) (entries : List AdStructure) (tail : List UInt8) : Prop where
  eq : p = entries.flatMap encode ++ tail
  fits : ∀ s ∈ entries, s.data.length ≤ 254
  halts : Halts tail

theorem exists_splits_parse (p : List UInt8) : ∃ tail, Splits p (parse p) tail := by
  fun_induction parse p with
  | case1 p s rest h ih =>
    obtain ⟨tail, hrest⟩ := ih
    obtain ⟨hp, hs⟩ := eq_encode_append_of_next? h
    refine ⟨tail, ?_, List.forall_mem_cons.mpr ⟨Nat.le_of_lt_succ hs, hrest.fits⟩, hrest.halts⟩
    rw [List.flatMap_cons, List.append_assoc, ← hrest.eq]
    exact hp
  | case2 p h => exact ⟨p, rfl, by simp, (next?_eq_none_iff p).mp h⟩

-- ---------------------------------------------------------------------------
-- Where entries end
-- ---------------------------------------------------------------------------

/-- Entries that lie one after the other, each with the place where it ends. -/
def withEnds (start : Nat) : List AdStructure → List (AdStructure × Nat)
  | [] => []
  | s :: rest => (s, start + s.encode.length) :: withEnds (start + s.encode.length) rest

/-- The entries that end at or before byte `k` of the payload they begin. -/
def endingBy (k : Nat) (entries : List AdStructure) : List AdStructure :=
  ((withEnds 0 entries).filter (·.2 ≤ k)).map Prod.fst

/-- Entries lie at the front of their payload without gaps, so that the ends
above are their places in it. -/
theorem exists_parse_append (p : List UInt8) : ∃ tail, p = (parse p).flatMap encode ++ tail :=
  (exists_splits_parse p).imp fun _ h => h.eq

theorem withEnds_add (m n : Nat) (entries : List AdStructure) :
    withEnds (m + n) entries = (withEnds n entries).map fun e => (e.1, m + e.2) := by
  induction entries generalizing n with
  | nil => rfl
  | cons s rest ih => simp only [withEnds, List.map_cons, Nat.add_assoc, ih]

theorem endingBy_cons (k : Nat) (s : AdStructure) (rest : List AdStructure) :
    endingBy k (s :: rest) =
      if s.encode.length ≤ k then s :: endingBy (k - s.encode.length) rest else [] := by
  have hshift := withEnds_add s.encode.length 0 rest
  simp only [endingBy, withEnds, Nat.zero_add, Nat.add_zero] at hshift ⊢
  rw [List.filter_cons, hshift, List.filter_map]
  split
  · rename_i h
    have hk : s.encode.length ≤ k := of_decide_eq_true h
    have hpred : ((fun e : AdStructure × Nat => decide (e.2 ≤ k)) ∘
        fun e : AdStructure × Nat => (e.1, s.encode.length + e.2)) =
        fun e => decide (e.2 ≤ k - s.encode.length) := by
      funext e
      simp only [Function.comp_apply, decide_eq_decide]
      omega
    rw [if_pos hk, hpred, List.map_cons, List.map_map]
    rfl
  · rename_i h
    have hk : ¬ s.encode.length ≤ k := of_decide_eq_false (Bool.eq_false_iff.mpr h)
    rw [if_neg hk, List.map_eq_nil_iff, List.map_eq_nil_iff, List.filter_eq_nil_iff]
    intro e _
    simp only [Function.comp_apply, decide_eq_true_eq]
    omega

theorem parse_take (p : List UInt8) (k : Nat) : parse (p.take k) = endingBy k (parse p) := by
  fun_induction parse p generalizing k with
  | case1 p s rest h ih =>
    obtain ⟨rfl, hs⟩ := eq_encode_append_of_next? h
    rw [endingBy_cons]
    split
    · rename_i hk
      have htake : (s.encode ++ rest).take k = s.encode ++ rest.take (k - s.encode.length) := by
        rw [List.take_append, List.take_of_length_le hk]
      rw [htake, parse_of_next? (next?_encode_append s hs _), ih]
    · rename_i hk
      exact parse_of_halts (halts_take_encode hs (Nat.lt_of_not_le hk) rest)
  | case2 p h => exact parse_of_halts (((next?_eq_none_iff p).mp h).take k)

end BleCapture.AdStructure
