import BleCapture.Advertisement.Fields
import Mathlib.Data.List.Induction

/-!
# What the entries of a payload say

The fields of an advertisement are folded from its entries one after the other.
`AdFields.Says` gives the result without the fold, in terms of the list of entries:
which of them decides each field, and what it says.
-/

namespace BleCapture.AdFields

-- ---------------------------------------------------------------------------
-- Numbers in the data
-- ---------------------------------------------------------------------------

/-- The number in the first two bytes, the lower byte first. -/
def firstWord (data : List UInt8) : Nat :=
  (data.getD 0 0).toNat + 256 * (data.getD 1 0).toNat

/-- The numbers in the complete pairs of bytes. -/
def words (data : List UInt8) : List Nat :=
  (List.range (data.length / 2)).map fun i => firstWord (data.drop (2 * i))

theorem toNat_littleEndian (lo hi : UInt8) :
    (littleEndian lo hi).toNat = lo.toNat + 256 * hi.toNat := by
  have hlo := lo.toNat_lt
  have hhi := hi.toNat_lt
  exact UInt16.toNat_ofNat_of_lt' (by simp only [UInt16.size]; omega)

theorem map_toNat_pairs (data : List UInt8) : (pairs data).map UInt16.toNat = words data := by
  fun_induction pairs data with
  | case1 lo hi rest ih =>
    have hlength : (lo :: hi :: rest).length / 2 = rest.length / 2 + 1 := by
      simp only [List.length_cons]
      omega
    have hwords : words (lo :: hi :: rest) = (lo.toNat + 256 * hi.toNat) :: words rest := by
      rw [words, hlength, List.range_succ_eq_map, List.map_cons, List.map_map]
      rfl
    rw [List.map_cons, ih, toNat_littleEndian, hwords]
  | case2 data hshort =>
    have hlength : data.length / 2 = 0 := by
      rcases data with _ | ⟨lo, _ | ⟨hi, rest⟩⟩
      · rfl
      · exact Nat.div_eq_of_lt (Nat.lt_succ_self 1)
      · exact (hshort lo hi rest rfl).elim
    rw [words, hlength]
    rfl

theorem map_present {f : α → β} [DecidableEq α] [DecidableEq β] (hf : ∀ a b, f a = f b → a = b)
    (absent value : α) : (present absent value).map f = present (f absent) (f value) := by
  unfold present
  by_cases h : value = absent
  · rw [if_pos h, if_pos (congrArg f h), Option.map_none]
  · rw [if_neg h, if_neg fun heq => h (hf _ _ heq), Option.map_some]

-- ---------------------------------------------------------------------------
-- One entry
-- ---------------------------------------------------------------------------

/-- The types of the entries that say something. -/
def knownTypes : List UInt8 := [0x01, 0x02, 0x03, 0x08, 0x09, 0x0A, 0x19, 0xFF]

theorem Kind.ofType_of_not_mem {type : UInt8} (h : type ∉ knownTypes) :
    Kind.ofType type = .other := by
  simp only [knownTypes, List.mem_cons, List.not_mem_nil, or_false, not_or] at h
  simp [Kind.ofType, h]

/-- Everything that one entry does. An entry of another type, or one too short for
its type, changes nothing. -/
theorem merge_eq (f : AdFields) (s : AdStructure) :
    f.merge s =
      { name := if s.type ∈ [0x08, 0x09] then s.data.take 31 else f.name
        txPower :=
          if s.type ∈ [0x0A] ∧ 1 ≤ s.data.length then present (-128) (s.data.headD 0).toInt8
          else f.txPower
        appearance :=
          if s.type ∈ [0x19] ∧ 2 ≤ s.data.length then
            present 0 (littleEndian (s.data.getD 0 0) (s.data.getD 1 0))
          else f.appearance
        flags :=
          if s.type ∈ [0x01] ∧ 1 ≤ s.data.length then present 0 (s.data.headD 0) else f.flags
        companyId :=
          if s.type ∈ [0xFF] ∧ 2 ≤ s.data.length then
            present 0 (littleEndian (s.data.getD 0 0) (s.data.getD 1 0))
          else f.companyId
        manufacturerData :=
          if s.type ∈ [0xFF] ∧ 2 ≤ s.data.length then (s.data.drop 2).take 64
          else f.manufacturerData
        services :=
          if s.type ∈ [0x02, 0x03] then (f.services ++ pairs s.data).take 8 else f.services } := by
  obtain ⟨type, data⟩ := s
  by_cases hknown : type ∈ knownTypes
  · simp only [knownTypes, List.mem_cons, List.not_mem_nil, or_false] at hknown
    -- The two lengths asked for are one and two.
    rcases hknown with rfl | rfl | rfl | rfl | rfl | rfl | rfl | rfl <;>
      rcases data with _ | ⟨lo, _ | ⟨hi, rest⟩⟩ <;> rfl
  · have hother : f.merge ⟨type, data⟩ = f := by
      simp only [merge, Kind.ofType_of_not_mem hknown]
    simp only [knownTypes, List.mem_cons, List.not_mem_nil, or_false, not_or] at hknown
    simp [hother, hknown]

-- ---------------------------------------------------------------------------
-- All entries
-- ---------------------------------------------------------------------------

/-- The data of the last entry of some types that has at least so many bytes. -/
def lastData? (types : List UInt8) (least : Nat) (entries : List AdStructure) :
    Option (List UInt8) :=
  ((entries.filter fun s => s.type ∈ types ∧ least ≤ s.data.length).map AdStructure.data).getLast?

theorem lastData?_concat (types : List UInt8) (least : Nat) (entries : List AdStructure)
    (s : AdStructure) :
    lastData? types least (entries ++ [s]) =
      if s.type ∈ types ∧ least ≤ s.data.length then some s.data
      else lastData? types least entries := by
  rw [lastData?, List.filter_append, List.map_append, List.getLast?_append]
  split
  · rename_i h
    simp [h]
  · rename_i h
    simp [h, lastData?]

/-- What a list of entries says. Of flags, power, appearance and company the value
for an absent one is given as well, and then the field is absent. -/
structure Says (entries : List AdStructure) (f : AdFields) : Prop where
  /-- The last name counts, also when it is empty. -/
  name : f.name = ((lastData? [0x08, 0x09] 0 entries).getD []).take 31
  flags : f.flags = present 0 ((lastData? [0x01] 1 entries).elim 0 (·.headD 0))
  txPower : f.txPower =
    present (-128) ((lastData? [0x0A] 1 entries).elim (-128) fun data => (data.headD 0).toInt8)
  appearance : f.appearance.map UInt16.toNat =
    present 0 ((lastData? [0x19] 2 entries).elim 0 firstWord)
  /-- Company and data come from one entry. -/
  companyId : f.companyId.map UInt16.toNat =
    present 0 ((lastData? [0xFF] 2 entries).elim 0 firstWord)
  manufacturerData : f.manufacturerData =
    (((lastData? [0xFF] 2 entries).getD []).drop 2).take 64
  services : f.services.map UInt16.toNat =
    ((entries.filter (·.type ∈ [0x02, 0x03])).flatMap fun s => words s.data).take 8

theorem says_nil : Says [] {} where
  name := rfl
  flags := rfl
  txPower := rfl
  appearance := rfl
  companyId := rfl
  manufacturerData := rfl
  services := rfl

theorem map_toNat_present_littleEndian (data : List UInt8) :
    (present 0 (littleEndian (data.getD 0 0) (data.getD 1 0))).map UInt16.toNat =
      present 0 (firstWord data) := by
  rw [map_present fun _ _ => UInt16.toNat_inj.mp, toNat_littleEndian]
  rfl

/-- A list that is cut off takes in as much of what follows as a longer one. -/
theorem take_take_append (n : Nat) (xs ys : List α) :
    (xs.take n ++ ys).take n = (xs ++ ys).take n := by
  rw [List.take_append, List.take_append, List.take_take, Nat.min_self, List.length_take]
  congr 2
  omega

theorem Says.merge {entries : List AdStructure} {f : AdFields} (h : Says entries f)
    (s : AdStructure) : Says (entries ++ [s]) (f.merge s) := by
  constructor <;> simp only [merge_eq, lastData?_concat]
  case name =>
    simp only [Nat.zero_le, and_true]
    split
    · rfl
    · exact h.name
  case flags =>
    split
    · rfl
    · exact h.flags
  case txPower =>
    split
    · rfl
    · exact h.txPower
  case appearance =>
    split
    · exact map_toNat_present_littleEndian s.data
    · exact h.appearance
  case companyId =>
    split
    · exact map_toNat_present_littleEndian s.data
    · exact h.companyId
  case manufacturerData =>
    split
    · rfl
    · exact h.manufacturerData
  case services =>
    rw [List.filter_append, List.flatMap_append]
    split
    · rename_i hs
      rw [List.filter_cons_of_pos (by simpa using hs), List.map_take, List.map_append, h.services,
        map_toNat_pairs, take_take_append, List.filter_nil, List.flatMap_singleton]
    · rename_i hs
      rw [List.filter_cons_of_neg (by simpa using hs), List.filter_nil, List.flatMap_nil,
        List.append_nil]
      exact h.services

/-- The fields of a payload are what its entries say. -/
theorem says_ofPayload (payload : List UInt8) :
    Says (AdStructure.parse payload) (ofPayload payload) := by
  unfold ofPayload
  induction AdStructure.parse payload using List.reverseRecOn with
  | nil => exact says_nil
  | append_singleton entries s ih =>
    rw [List.foldl_append]
    exact ih.merge s

end BleCapture.AdFields
