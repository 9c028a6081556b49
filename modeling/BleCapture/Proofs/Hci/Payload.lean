import BleCapture.Proofs.Hci.Packet

/-!
# What a packet keeps of a payload

The type of a packet is enough to find the payload in it. Packets hold all of a
payload up to the largest length that a header can state, and they tell such payloads
apart.
-/

namespace BleCapture

/-- The payload in a packet of a type: all but the indicator and the length. Where
there is no room for a length, none was written. -/
def PacketType.unpack : PacketType → List UInt8 → List UInt8
  | .command, _ :: lo :: hi :: _ :: params => lo :: hi :: params
  | .aclData, _ :: h0 :: h1 :: _ :: _ :: data => h0 :: h1 :: data
  | .leMetaEvent, packet => packet.drop 3
  | _, packet => packet.tail

namespace Frame

theorem unpack_toH4 (f : Frame) : f.type.unpack f.toH4 = f.payload.take f.type.maxPayload := by
  obtain ⟨type, declared, payload⟩ := f
  simp only [toH4]
  generalize payload.take type.maxPayload = kept
  cases type with
  | command | aclData =>
    -- No opcode or handle, half of one, or all of it.
    rcases kept with _ | ⟨b0, _ | ⟨b1, body⟩⟩ <;> rfl
  | leMetaEvent | generalEvent => rfl

theorem toH4_congr {f g : Frame} (htype : f.type = g.type)
    (h : f.payload.take f.type.maxPayload = g.payload.take g.type.maxPayload) :
    f.toH4 = g.toH4 := by
  simp only [toH4]
  rw [h, htype]

/-- Of two frames of a type the packets are equal exactly if the payloads agree in all
that a packet can hold. -/
theorem toH4_eq_iff {f g : Frame} (htype : f.type = g.type) :
    f.toH4 = g.toH4 ↔
      f.payload.take f.type.maxPayload = g.payload.take g.type.maxPayload := by
  refine ⟨fun h => ?_, toH4_congr htype⟩
  rw [← unpack_toH4 f, ← unpack_toH4 g, h, htype]

/-- A length that is written into a packet counts the bytes behind it. -/
theorem lengthAgrees_toH4 {f : Frame} (hwritten : f.type ≠ .generalEvent) (hheader : f.HasHeader) :
    f.type.packetClass.LengthAgrees f.toH4.tail := by
  let kept : Frame := { f with payload := f.payload.take f.type.maxPayload }
  have hle : kept.payload.length ≤ kept.type.maxPayload := List.length_take_le _ _
  have hpacket : kept.toH4 = f.toH4 :=
    toH4_congr rfl (by rw [List.take_take, Nat.min_self])
  have hkept : kept.HasHeader := by
    obtain ⟨type, declared, payload⟩ := f
    cases type with
    | command | aclData =>
      have hlength : 2 ≤ payload.length := hheader
      simp only [HasHeader, kept, PacketType.maxPayload, List.length_take]
      omega
    | leMetaEvent => trivial
    | generalEvent => exact absurd rfl hwritten
  obtain ⟨body, hbody, ⟨hagrees, -⟩ | ⟨-, hnot, -⟩⟩ := toH4_cases hle
  · rw [← hpacket, hbody]
    exact hagrees
  · exact absurd hkept hnot

/-- For each type of packet there is one way to get the payload back, up to the
largest length. So packets tell payloads of that length apart, a longer payload gives
the packet of its front, and the length in a packet is that of the bytes behind it. -/
theorem toH4_keeps_payload (t : PacketType) :
    (∀ f : Frame, f.type = t → t.unpack f.toH4 = f.payload.take t.maxPayload) ∧
      (∀ f g : Frame, f.type = t → g.type = t → f.payload.length ≤ t.maxPayload →
        g.payload.length ≤ t.maxPayload → f.toH4 = g.toH4 → f.payload = g.payload) ∧
      (∀ f g : Frame, f.type = t → g.type = t → g.payload = f.payload.take t.maxPayload →
        g.toH4 = f.toH4) ∧
      ∀ f : Frame, f.type = t → t ≠ .generalEvent → f.HasHeader →
        t.packetClass.LengthAgrees f.toH4.tail := by
  refine ⟨?_, ?_, ?_, ?_⟩
  · rintro f rfl
    exact unpack_toH4 f
  · rintro f g rfl htype hf hg h
    have hkept := (toH4_eq_iff htype.symm).mp h
    rwa [htype, List.take_of_length_le hf, List.take_of_length_le hg] at hkept
  · rintro f g rfl htype h
    refine toH4_congr htype ?_
    rw [h, htype, List.take_take, Nat.min_self]
  · rintro f rfl hwritten hheader
    exact lengthAgrees_toH4 hwritten hheader

end Frame

end BleCapture
