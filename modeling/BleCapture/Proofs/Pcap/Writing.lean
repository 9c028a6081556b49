import BleCapture.Pcap.Writer
import BleCapture.Proofs.Pcap.Reading
import BleCapture.Proofs.Sink
import Mathlib.Data.List.Forall2
import Mathlib.Order.Bounds.Basic

/-!
# Streams on small targets

A writer that goes on after failures. Its target holds the front of the stream
that all packets make, and the packets counted as written are the ones that are
there as a whole.
-/

namespace BleCapture.Pcap

@[simp] theorem records_cons (p : Timestamp × List UInt8) (rest : List (Timestamp × List UInt8)) :
    records (p :: rest) = record p.1 p.2 ++ records rest := List.flatMap_cons ..

namespace Writer

/-- Tries every packet, whatever came of those before it. Gives what came of each. -/
def writeAll : Writer → List (Timestamp × List UInt8) → Writer × List (Option IoError)
  | w, [] => (w, [])
  | w, (t, packet) :: rest =>
    let (next, error) := w.writePacket t packet
    let (last, errors) := writeAll next rest
    (last, error :: errors)

variable {room : Nat} {e : IoError} {offered : List UInt8} {w : Writer}

-- ---------------------------------------------------------------------------
-- One packet
-- ---------------------------------------------------------------------------

/-- The bytes of a packet are offered only behind its whole header. -/
theorem writePacket_eq (w : Writer) (t : Timestamp) (packet : List UInt8) :
    w.writePacket t packet =
      let header := w.sink.write (recordHeader t packet.length)
      let body := header.1.write packet
      if header.2.isSome then ({ w with sink := header.1 }, header.2)
      else if body.2.isSome then ({ w with sink := body.1 }, body.2)
      else ({ sink := body.1, packets := w.packets + 1 }, none) := by
  unfold writePacket
  rcases hheader : w.sink.write (recordHeader t packet.length) with ⟨s, _ | _⟩
  · rcases hbody : s.write packet with ⟨s', _ | _⟩ <;> simp [hbody]
  · rfl

theorem writePacket_of_eq_none {next : Writer} {t : Timestamp} {packet : List UInt8}
    (h : w.writePacket t packet = (next, none)) :
    next.packets = w.packets + 1 ∧ next.sink.bytes = w.sink.bytes ++ record t packet := by
  unfold writePacket at h
  split at h
  · cases h
  · rename_i hheader
    split at h <;> cases h
    rename_i hbody
    rw [Sink.eq_append_of_write hbody, Sink.eq_append_of_write hheader, Sink.bytes_append,
      Sink.bytes_append, List.append_assoc, ← record]
    exact ⟨rfl, rfl⟩

theorem create_of_eq_ok {sink : Sink} (h : create sink = .ok w) :
    w.packets = 0 ∧ w.sink.bytes = sink.bytes ++ globalHeader := by
  unfold create at h
  split at h
  · rename_i hheader
    cases h
    exact ⟨rfl, by rw [Sink.eq_append_of_write hheader, Sink.bytes_append]⟩
  · cases h

theorem writePacket_of_le (h : w.sink.Holds room e offered) {t : Timestamp} {packet : List UInt8}
    (hfits : (offered ++ record t packet).length ≤ room) :
    (w.writePacket t packet).2 = none ∧ (w.writePacket t packet).1.packets = w.packets + 1 ∧
      (w.writePacket t packet).1.sink.Holds room e (offered ++ record t packet) := by
  have hlen : (offered ++ recordHeader t packet.length).length + packet.length ≤ room := by
    rwa [← List.length_append, List.append_assoc, ← record]
  obtain ⟨hheader, hheld⟩ := h.write_of_le (recordHeader t packet.length)
    (by simpa using Nat.le_of_add_right_le hlen)
  obtain ⟨hbody, hall⟩ := hheld.write_of_le packet hlen
  rw [List.append_assoc, ← record] at hall
  rw [writePacket_eq]
  simp [hheader, hbody, hall]

theorem writePacket_of_lt (h : w.sink.Holds room e offered) {t : Timestamp} {packet : List UInt8}
    (hcut : room < (offered ++ record t packet).length) :
    (w.writePacket t packet).2 = some e ∧ (w.writePacket t packet).1.packets = w.packets ∧
      (w.writePacket t packet).1.sink.Holds room e (offered ++ record t packet) := by
  have hne : recordHeader t packet.length ≠ [] := List.cons_ne_nil _ _
  rw [record, ← List.append_assoc] at hcut ⊢
  rw [writePacket_eq]
  rcases Nat.lt_or_ge room (offered ++ recordHeader t packet.length).length with hshort | hwhole
  · obtain ⟨hheader, hheld⟩ := h.write_of_lt hne (by simpa using hshort)
    have hall := hheld.of_full (Nat.le_of_lt hshort) packet
    simpa [hheader] using hall
  · -- The header is there, so the packet is not empty.
    obtain ⟨hheader, hheld⟩ := h.write_of_le (recordHeader t packet.length)
      (by simpa using hwhole)
    have hpacket : packet ≠ [] := by
      rintro rfl
      rw [List.append_nil] at hcut
      exact absurd hcut (Nat.not_lt.mpr hwhole)
    obtain ⟨hbody, hall⟩ := hheld.write_of_lt hpacket (by rwa [← List.length_append])
    simpa [hheader, hbody] using hall

-- ---------------------------------------------------------------------------
-- All packets
-- ---------------------------------------------------------------------------

/-- Behind a packet that did not fit, no packet is written. -/
theorem writeAll_of_lt (h : w.sink.Holds room e offered) (hfull : room < offered.length)
    (packets : List (Timestamp × List UInt8)) :
    (w.writeAll packets).2 = List.replicate packets.length (some e) ∧
      (w.writeAll packets).1.packets = w.packets ∧
      (w.writeAll packets).1.sink.Holds room e (offered ++ records packets) := by
  induction packets generalizing w offered with
  | nil => exact ⟨rfl, rfl, by simpa [writeAll, records] using h⟩
  | cons p rest ih =>
    have hcut : room < (offered ++ record p.1 p.2).length := by
      rw [List.length_append]
      exact Nat.lt_add_right _ hfull
    obtain ⟨herror, hpackets, hheld⟩ := writePacket_of_lt h hcut
    obtain ⟨herrors, hcount, hall⟩ := ih hheld hcut
    rw [List.append_assoc, ← records_cons] at hall
    exact ⟨by simp [writeAll, herror, herrors, List.replicate_succ], hcount.trans hpackets, hall⟩

/-- The numbers of packets that are whole within `room` bytes, behind the bytes `offered`. -/
def wholePackets (room : Nat) (offered : List UInt8) (packets : List (Timestamp × List UInt8)) :
    Set Nat :=
  { k | k ≤ packets.length ∧ (offered ++ records (packets.take k)).length ≤ room }

theorem isGreatest_wholePackets_zero {p : Timestamp × List UInt8}
    {rest : List (Timestamp × List UInt8)} (hroom : offered.length ≤ room)
    (hcut : room < (offered ++ record p.1 p.2).length) :
    IsGreatest (wholePackets room offered (p :: rest)) 0 := by
  refine ⟨⟨Nat.zero_le _, by simpa [records] using hroom⟩, ?_⟩
  rintro (_ | k) ⟨-, hk⟩
  · exact Nat.le_refl 0
  · rw [List.take_succ_cons, records_cons, ← List.append_assoc, List.length_append] at hk
    omega

theorem isGreatest_wholePackets_succ {p : Timestamp × List UInt8}
    {rest : List (Timestamp × List UInt8)} {k : Nat}
    (h : IsGreatest (wholePackets room (offered ++ record p.1 p.2) rest) k) :
    IsGreatest (wholePackets room offered (p :: rest)) (k + 1) := by
  obtain ⟨⟨hle, hk⟩, hmax⟩ := h
  refine ⟨⟨Nat.succ_le_succ hle, by simpa [List.append_assoc] using hk⟩, ?_⟩
  rintro (_ | n) ⟨hn, hfits⟩
  · exact Nat.zero_le _
  · refine Nat.succ_le_succ (hmax ⟨Nat.le_of_succ_le_succ hn, ?_⟩)
    simpa [List.append_assoc] using hfits

theorem writeAll_of_le (h : w.sink.Holds room e offered) (hroom : offered.length ≤ room)
    (packets : List (Timestamp × List UInt8)) :
    ∃ k, IsGreatest (wholePackets room offered packets) k ∧
      (w.writeAll packets).2 =
        List.replicate k none ++ List.replicate (packets.length - k) (some e) ∧
      (w.writeAll packets).1.packets = w.packets + k ∧
      (w.writeAll packets).1.sink.Holds room e (offered ++ records packets) := by
  induction packets generalizing w offered with
  | nil =>
    refine ⟨0, ⟨⟨Nat.le_refl 0, by simpa [records] using hroom⟩, fun k hk => hk.1⟩, rfl, rfl, ?_⟩
    simpa [writeAll, records] using h
  | cons p rest ih =>
    rcases Nat.lt_or_ge room (offered ++ record p.1 p.2).length with hcut | hfits
    · obtain ⟨herror, hpackets, hheld⟩ := writePacket_of_lt h hcut
      obtain ⟨herrors, hcount, hall⟩ := writeAll_of_lt hheld hcut rest
      rw [List.append_assoc, ← records_cons] at hall
      refine ⟨0, isGreatest_wholePackets_zero hroom hcut, ?_, hcount.trans hpackets, hall⟩
      simp [writeAll, herror, herrors, List.replicate_succ]
    · obtain ⟨herror, hpackets, hheld⟩ := writePacket_of_le h hfits
      obtain ⟨k, hk, herrors, hcount, hall⟩ := ih hheld hfits
      rw [List.append_assoc, ← records_cons] at hall
      refine ⟨k + 1, isGreatest_wholePackets_succ hk, ?_, ?_, hall⟩
      · simp [writeAll, herror, herrors, List.replicate_succ]
      · exact hcount.trans (by rw [hpackets, Nat.add_right_comm, Nat.add_assoc])

theorem writePacket_of_unlimited (h : w.sink.limit = none) (t : Timestamp) (packet : List UInt8) :
    (w.writePacket t packet).2 = none ∧ (w.writePacket t packet).1.packets = w.packets + 1 ∧
      (w.writePacket t packet).1.sink.limit = none ∧
      (w.writePacket t packet).1.sink.bytes = w.sink.bytes ++ record t packet := by
  have hheader := Sink.write_of_unlimited h (recordHeader t packet.length)
  have hbody := Sink.write_of_unlimited (s := w.sink.append (recordHeader t packet.length)) h packet
  have hlimit : ((w.sink.append (recordHeader t packet.length)).append packet).limit = none := h
  rw [writePacket_eq]
  simp [hheader, hbody, hlimit, record]

theorem writeAll_of_unlimited (h : w.sink.limit = none)
    (packets : List (Timestamp × List UInt8)) :
    (w.writeAll packets).2 = List.replicate packets.length none ∧
      (w.writeAll packets).1.packets = w.packets + packets.length ∧
      (w.writeAll packets).1.sink.bytes = w.sink.bytes ++ records packets := by
  induction packets generalizing w with
  | nil => exact ⟨rfl, rfl, by simp [writeAll, records]⟩
  | cons p rest ih =>
    obtain ⟨herror, hpackets, hlimit, hbytes⟩ := writePacket_of_unlimited h p.1 p.2
    obtain ⟨herrors, hcount, hall⟩ := ih hlimit
    refine ⟨?_, ?_, ?_⟩
    · simp [writeAll, herror, herrors, List.replicate_succ]
    · exact hcount.trans (by rw [hpackets, List.length_cons, Nat.add_right_comm, Nat.add_assoc])
    · exact hall.trans (by rw [hbytes, records_cons, List.append_assoc])

-- ---------------------------------------------------------------------------
-- Streams
-- ---------------------------------------------------------------------------

theorem create_of_lt {room : Nat} (h : room < 24) :
    create { limit := some room } = .error IoError.writeZero := by
  have hnot : ¬ 24 ≤ room := Nat.not_le.mpr h
  simp [create, Sink.write, hnot]

theorem create_of_le {room : Nat} (h : 24 ≤ room) :
    ∃ w, create { limit := some room } = .ok w ∧ w.packets = 0 ∧
      w.sink.Holds room IoError.writeZero globalHeader := by
  have hempty : Sink.Holds room IoError.writeZero [] { limit := some room } :=
    ⟨rfl, rfl, by simp [Sink.bytes]⟩
  obtain ⟨herror, hheld⟩ := hempty.write_of_le globalHeader (by simpa using h)
  rcases hwrite : Sink.write { limit := some room } globalHeader with ⟨s, _ | _⟩
  · rw [hwrite] at hheld
    exact ⟨{ sink := s }, by simp [create, hwrite], rfl, hheld⟩
  · rw [hwrite] at herror
    cases herror

/-- A stream begins with the header of its format and reads back as the packets
that were written, each whole and with its time in microseconds. A target that
takes only so many bytes, and is offered every packet, ends up with that many of
the stream. The packets that are whole in it are the ones counted, and they are
the first: the attempts at them succeed, and no others. -/
theorem writeAll_stream (packets : List (Timestamp × List UInt8)) :
    (stream packets).take 24 =
      [0xD4, 0xC3, 0xB2, 0xA1, 2, 0, 4, 0, 0, 0, 0, 0, 0, 0, 0, 0, 0xFF, 0xFF, 0, 0, 187, 0, 0, 0] ∧
    (∃ w, create {} = .ok w ∧ (w.writeAll packets).1.sink.bytes = stream packets ∧
      (w.writeAll packets).1.packets = packets.length ∧
      (w.writeAll packets).2 = List.replicate packets.length none) ∧
    ((∀ p ∈ packets, p.2.length < 2 ^ 32) →
      ∃ entries, read? (stream packets) = some entries ∧ List.Forall₂ ReadsAs packets entries) ∧
    ∀ room,
      (room < 24 → create { limit := some room } = .error IoError.writeZero) ∧
      (24 ≤ room → ∃ w k, create { limit := some room } = .ok w ∧
        (w.writeAll packets).1.sink.bytes = (stream packets).take room ∧
        (w.writeAll packets).1.packets = k ∧
        IsGreatest { n | n ≤ packets.length ∧ (stream (packets.take n)).length ≤ room } k ∧
        (w.writeAll packets).2 = List.replicate k none ++
          List.replicate (packets.length - k) (some IoError.writeZero)) := by
  refine ⟨rfl, ?_, fun hlen => ?_, fun room => ⟨create_of_lt, fun hroom => ?_⟩⟩
  · refine ⟨{ sink := Sink.append {} globalHeader }, rfl, ?_⟩
    obtain ⟨herrors, hcount, hbytes⟩ :=
      writeAll_of_unlimited (w := { sink := Sink.append {} globalHeader }) rfl packets
    exact ⟨hbytes, by simpa using hcount, herrors⟩
  · refine ⟨_, read?_stream hlen, ?_⟩
    rw [List.forall₂_map_right_iff, List.forall₂_same]
    exact fun p _ => readsAs_entry p
  · obtain ⟨w, hcreate, hzero, hheld⟩ := create_of_le hroom
    obtain ⟨k, hk, herrors, hcount, hall⟩ := writeAll_of_le hheld hroom packets
    rw [hzero, Nat.zero_add] at hcount
    exact ⟨w, k, hcreate, hall.bytes, hcount, hk, herrors⟩

/-- A packet of four bytes is followed by an empty one, for which one byte is missing. -/
theorem writeAll_stream_cut :
    let packets : List (Timestamp × List UInt8) :=
      [(⟨1700000000250000999⟩, [0x04, 0x0E, 0x01, 0x00]), (⟨-1⟩, [])]
    (∀ p ∈ packets, p.2.length < 2 ^ 32) ∧ 24 ≤ 59 ∧ 23 < 24 ∧
    create { limit := some 23 } = .error IoError.writeZero ∧
    (∃ entries, read? (stream packets) = some entries ∧ List.Forall₂ ReadsAs packets entries) ∧
    ∃ w, create { limit := some 59 } = .ok w ∧
      (w.writeAll packets).1.sink.bytes = (stream packets).take 59 ∧
      (w.writeAll packets).1.packets = 1 ∧
      (w.writeAll packets).2 = [none, some IoError.writeZero] := by
  intro packets
  have hlen : ∀ p ∈ packets, p.2.length < 2 ^ 32 := by decide
  obtain ⟨-, -, hread, hroom⟩ := writeAll_stream packets
  obtain ⟨w, k, hcreate, hbytes, hcount, -, herrors⟩ := (hroom 59).2 (by decide)
  have hw : w = { sink := Sink.append { limit := some 59 } globalHeader } :=
    Except.ok.inj (hcreate.symm.trans rfl)
  have hone : (w.writeAll packets).1.packets = 1 := by
    rw [hw]
    rfl
  rw [← hcount, hone] at herrors
  exact ⟨hlen, by decide, by decide, (hroom 23).1 (by decide), hread hlen, w, hcreate, hbytes, hone,
    herrors⟩

end Writer

end BleCapture.Pcap
