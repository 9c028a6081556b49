import BleCapture.Sink

/-!
# Sinks with little room

A sink that may be written to after it has failed. Whatever it is offered, it
holds the front of that, as much as there is room for.
-/

namespace BleCapture.Sink

@[simp] theorem length_bytes (s : Sink) : s.bytes.length = s.size := by
  simp [bytes, s.size_eq, List.length_flatten]

theorem write_of_unlimited {s : Sink} (h : s.limit = none) (bs : List UInt8) :
    s.write bs = (s.append bs, none) := by
  simp [write, h]

@[simp] theorem limit_write (s : Sink) (bs : List UInt8) : (s.write bs).1.limit = s.limit := by
  unfold write
  split
  · rfl
  · split <;> rfl

/-- A write that succeeds is a whole one. -/
theorem eq_append_of_write {s s' : Sink} {bs : List UInt8} (h : s.write bs = (s', none)) :
    s' = s.append bs := by
  unfold write at h
  split at h
  · cases h
    rfl
  · split at h <;> cases h
    rfl

/-- A sink with room for `room` bytes that was offered the bytes `offered`, and
that fails with `e`. -/
structure Holds (room : Nat) (e : IoError) (offered : List UInt8) (s : Sink) : Prop where
  limit : s.limit = some room
  failure : s.failure = e
  bytes : s.bytes = offered.take room

namespace Holds

variable {room : Nat} {e : IoError} {offered : List UInt8} {s : Sink}

theorem size (h : Holds room e offered s) : s.size = min room offered.length := by
  rw [← length_bytes, h.bytes, List.length_take]

/-- What is offered to a full sink makes no difference. -/
theorem of_full (h : Holds room e offered s) (hfull : room ≤ offered.length)
    (more : List UInt8) : Holds room e (offered ++ more) s :=
  ⟨h.limit, h.failure, by rw [h.bytes, List.take_append_of_le_length hfull]⟩

theorem write_of_le (h : Holds room e offered s) (bs : List UInt8)
    (hfits : offered.length + bs.length ≤ room) :
    (s.write bs).2 = none ∧ Holds room e (offered ++ bs) (s.write bs).1 := by
  have hwhole : offered.length ≤ room := Nat.le_of_add_right_le hfits
  have hsize : s.size = offered.length := h.size.trans (Nat.min_eq_right hwhole)
  have hwrite : s.write bs = (s.append bs, none) := by
    simp [write, h.limit, hsize, hfits]
  rw [hwrite]
  refine ⟨rfl, h.limit, h.failure, ?_⟩
  rw [bytes_append, h.bytes, List.take_of_length_le hwhole,
    List.take_of_length_le (by simpa using hfits)]

theorem write_of_lt (h : Holds room e offered s) {bs : List UInt8} (hne : bs ≠ [])
    (hcut : room < offered.length + bs.length) :
    (s.write bs).2 = some e ∧ Holds room e (offered ++ bs) (s.write bs).1 := by
  have hpos : 0 < bs.length := List.length_pos_iff.mpr hne
  have hnot : ¬ s.size + bs.length ≤ room := by
    rw [h.size]
    omega
  have hwrite : s.write bs = (s.append (bs.take (room - s.size)), some e) := by
    simp [write, h.limit, h.failure, hnot]
  rw [hwrite]
  refine ⟨rfl, h.limit, h.failure, ?_⟩
  rw [bytes_append, h.bytes, List.take_append, h.size]
  congr 2
  omega

end Holds

end BleCapture.Sink
