import BleCapture.Hci.Frame

/-!
# Frames and their packets

The codes of packet types, what a packet holds of the payload of its frame, and
how long it is.
-/

namespace BleCapture

theorem PacketType.ofCode?_eq_some_iff {code : UInt8} {t : PacketType} :
    ofCode? code = some t ↔ code = t.code := by
  constructor
  · intro h
    unfold ofCode? at h
    repeat' split at h
    all_goals cases h
    all_goals assumption
  · rintro rfl
    cases t <;> rfl

namespace Frame

/-- A packet puts bytes in front of the payload and behind its first two bytes.
As long as its header can state the length, it takes none away. -/
theorem payload_sublist_toH4 {f : Frame} (h : f.payload.length ≤ f.type.maxPayload) :
    f.payload.Sublist f.toH4 := by
  have hwhole : f.payload.take f.type.maxPayload = f.payload := List.take_of_length_le h
  simp only [toH4, hwhole]
  split
  · rename_i lo hi body _ hpayload
    rw [hpayload]
    exact .cons _ (.cons_cons _ (.cons_cons _ (List.sublist_cons_self _ body)))
  · exact List.sublist_cons_self _ _
  · rename_i lo hi body _ hpayload
    rw [hpayload]
    exact .cons _ (.cons_cons _ (.cons_cons _ ((List.sublist_cons_self _ body).cons _)))
  · exact List.sublist_cons_self _ _
  · exact ((List.sublist_cons_self _ _).cons _).cons _
  · exact List.sublist_cons_self _ _

/-- Bytes in front of the payload of a packet. Most of a header may already be in
the payload. -/
theorem length_toH4_le (f : Frame) :
    f.toH4.length ≤ min f.payload.length f.type.maxPayload + 3 := by
  rw [Nat.min_comm, ← List.length_take]
  unfold toH4
  dsimp only
  generalize f.payload.take f.type.maxPayload = payload
  split <;> simp only [List.length_cons] <;> omega

theorem length_toH4_aclData {f : Frame} (htype : f.type = .aclData) (h : 2 ≤ f.payload.length) :
    f.toH4.length = min f.payload.length (2 + 65535) + 3 := by
  obtain ⟨type, declared, payload⟩ := f
  subst htype
  match payload, h with
  | lo :: hi :: body, _ =>
    simp only [toH4, PacketType.maxPayload, List.take_succ_cons, List.length_cons, List.length_take]
    omega

theorem length_toH4_le_iff (f : Frame) :
    f.toH4.length ≤ 65535 ↔ ¬ (f.type = .aclData ∧ 65532 < f.payload.length) := by
  by_cases htype : f.type = .aclData
  · rcases Nat.lt_or_ge f.payload.length 2 with hshort | hlong
    · have hle := f.length_toH4_le
      omega
    · rw [length_toH4_aclData htype hlong]
      simp only [htype, true_and]
      omega
  · have hle := f.length_toH4_le
    have hmax : f.type.maxPayload ≤ 257 := by
      cases hcase : f.type <;> first | exact absurd hcase htype | decide
    simp only [htype, false_and, not_false_eq_true, iff_true]
    omega

end Frame

end BleCapture
