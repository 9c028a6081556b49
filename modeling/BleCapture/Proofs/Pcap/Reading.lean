import BleCapture.Pcap.Format
import Mathlib.Algebra.Ring.Int.Defs
import Mathlib.Algebra.Ring.Nat

/-!
# Streams that are read back

Reading a stream gives its packets in order. Lengths come back as they are if
they fit four bytes, and times as whole microseconds.
-/

namespace BleCapture.Pcap

/-- All records of a stream. -/
def records (packets : List (Timestamp × List UInt8)) : List UInt8 :=
  packets.flatMap fun p => record p.1 p.2

theorem stream_concat (packets : List (Timestamp × List UInt8)) (t : Timestamp)
    (packet : List UInt8) :
    stream (packets ++ [(t, packet)]) = stream packets ++ record t packet := by
  simp [stream, List.flatMap_append]

@[simp] theorem length_globalHeader : globalHeader.length = 24 := rfl

@[simp] theorem length_record (t : Timestamp) (packet : List UInt8) :
    (record t packet).length = packet.length + 16 := by
  simp [record, recordHeader, le32, le16]

theorem length_stream (packets : List (Timestamp × List UInt8)) :
    (stream packets).length =
      24 + 16 * packets.length + (packets.map fun p => p.2.length).sum := by
  have hrecords : (records packets).length =
      16 * packets.length + (packets.map fun p => p.2.length).sum := by
    induction packets with
    | nil => rfl
    | cons p rest ih =>
      rw [records, List.flatMap_cons, ← records, List.length_append, length_record, ih,
        List.length_cons, List.map_cons, List.sum_cons]
      omega
  rw [stream, ← records, List.length_append, hrecords, length_globalHeader, Nat.add_assoc]

/-- The entry that a record is read as. -/
def entry (t : Timestamp) (packet : List UInt8) : Entry where
  seconds := t.sinceEpoch.seconds % 2 ^ 32
  micros := t.sinceEpoch.subsecond / 1000
  savedLength := packet.length
  fullLength := packet.length
  packet := packet

theorem micros_lt (d : Duration) : d.subsecond / 1000 < 1000000 := by
  have h : d.subsecond < nanosPerSecond := Nat.mod_lt _ (by decide)
  exact Nat.div_lt_of_lt_mul h

-- ---------------------------------------------------------------------------
-- Records
-- ---------------------------------------------------------------------------

theorem readLe32?_le32 (n : Nat) (rest : List UInt8) :
    readLe32? (le32 n ++ rest) = some (n % 2 ^ 32, rest) := by
  simp only [le32, le16, List.cons_append, List.nil_append, readLe32?, UInt8.toNat_ofNat']
  congr 2
  omega

theorem readRecord?_record {packet : List UInt8} (h : packet.length < 2 ^ 32) (t : Timestamp)
    (rest : List UInt8) : readRecord? (record t packet ++ rest) = some (entry t packet, rest) := by
  have hmicros : t.sinceEpoch.subsecond / 1000 % 2 ^ 32 = t.sinceEpoch.subsecond / 1000 :=
    Nat.mod_eq_of_lt (Nat.lt_trans (micros_lt _) (by decide))
  have hwhole : ¬ (packet ++ rest).length < packet.length := by
    simp
  simp only [readRecord?, record, recordHeader, List.append_assoc, readLe32?_le32,
    Option.bind_eq_bind, Option.bind_some, hmicros, Nat.mod_eq_of_lt h, if_neg hwhole,
    List.take_left, List.drop_left, entry]

theorem readRecords?_records {packets : List (Timestamp × List UInt8)}
    (h : ∀ p ∈ packets, p.2.length < 2 ^ 32) {fuel : Nat} (hfuel : packets.length ≤ fuel) :
    readRecords? fuel (records packets) = some (packets.map fun p => entry p.1 p.2) := by
  induction packets generalizing fuel with
  | nil => simp [records, readRecords?]
  | cons p rest ih =>
    obtain ⟨hp, hrest⟩ := List.forall_mem_cons.mp h
    cases fuel with
    | zero => cases hfuel
    | succ fuel =>
      obtain ⟨b, bs, hcons⟩ : ∃ b bs, record p.1 p.2 ++ records rest = b :: bs := ⟨_, _, rfl⟩
      have hread := readRecord?_record hp p.1 (records rest)
      have hmore := ih hrest (Nat.le_of_succ_le_succ hfuel)
      rw [hcons] at hread
      rw [records, List.flatMap_cons, ← records, hcons, readRecords?]
      · simp [hread, hmore]
      · exact List.cons_ne_nil b bs

theorem length_le_records (packets : List (Timestamp × List UInt8)) :
    packets.length ≤ (records packets).length := by
  induction packets with
  | nil => exact Nat.le_refl 0
  | cons p rest ih =>
    rw [records, List.flatMap_cons, ← records, List.length_append, length_record, List.length_cons]
    omega

theorem read?_stream {packets : List (Timestamp × List UInt8)}
    (h : ∀ p ∈ packets, p.2.length < 2 ^ 32) :
    read? (stream packets) = some (packets.map fun p => entry p.1 p.2) := by
  have hfuel : packets.length ≤ (stream packets).length :=
    Nat.le_trans (length_le_records packets) (List.length_append ▸ Nat.le_add_left _ _)
  have hbody : (stream packets).drop globalHeader.length = records packets := List.drop_left
  have hheader : globalHeader.isPrefixOf (stream packets) = true := by
    simp [stream]
  rw [read?, if_pos hheader, hbody, readRecords?_records h hfuel]

-- ---------------------------------------------------------------------------
-- Entries
-- ---------------------------------------------------------------------------

/-- An entry that says all about a packet and its time that a stream can say. -/
structure ReadsAs (p : Timestamp × List UInt8) (e : Entry) : Prop where
  packet : e.packet = p.2
  savedLength : e.savedLength = p.2.length
  fullLength : e.fullLength = p.2.length
  micros_lt : e.micros < 1000000
  time : 0 ≤ p.1.nanos → p.1.nanos < 2 ^ 32 * 10 ^ 9 →
    ((e.seconds * 1000000 + e.micros : Nat) : Int) = p.1.nanos / 1000
  before : p.1.nanos < 0 → e.seconds = 0 ∧ e.micros = 0

theorem readsAs_entry (p : Timestamp × List UInt8) : ReadsAs p (entry p.1 p.2) where
  packet := rfl
  savedLength := rfl
  fullLength := rfl
  micros_lt := micros_lt _
  time := by
    obtain ⟨⟨nanos⟩, packet⟩ := p
    intro hpos hlt
    simp only [entry, Timestamp.sinceEpoch, Timestamp.since, Duration.seconds, Duration.subsecond,
      nanosPerSecond] at hpos hlt ⊢
    omega
  before := by
    obtain ⟨⟨nanos⟩, packet⟩ := p
    intro hneg
    have hzero : nanos.toNat = 0 := Int.toNat_of_nonpos (Int.le_of_lt hneg)
    simp [entry, Timestamp.sinceEpoch, Timestamp.since, Duration.seconds, Duration.subsecond, hzero]

end BleCapture.Pcap
