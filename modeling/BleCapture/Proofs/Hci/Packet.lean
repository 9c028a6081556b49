import BleCapture.Proofs.Line.Decode

/-!
# Complete packets

An H4 packet is complete when its header is all there and states how many bytes
follow it. Frames from lines are packed as they come: LE meta events always give
a complete packet, the other types do if their payload allows it.
-/

namespace BleCapture

namespace PacketClass

/-- The first byte of a packet. -/
def indicator : PacketClass → UInt8
  | .command => 1
  | .acl => 2
  | .event => 4

theorem indicator_injective {c d : PacketClass} (h : c.indicator = d.indicator) : c = d := by
  revert h
  cases c <;> cases d <;> decide

/-- The bytes behind an indicator are a header and as many bytes as it says. The
length is one byte after the opcode of a command and after the code of an event,
and two bytes after the handle of ACL data, low byte first. -/
def LengthAgrees : PacketClass → List UInt8 → Prop
  | .command, _ :: _ :: length :: params => length.toNat = params.length
  | .acl, _ :: _ :: lo :: hi :: data => lo.toNat + 256 * hi.toNat = data.length
  | .event, _ :: length :: params => length.toNat = params.length
  | _, _ => False

/-- A complete packet of a kind. -/
def IsPacket (c : PacketClass) (packet : List UInt8) : Prop :=
  packet.head? = some c.indicator ∧ c.LengthAgrees packet.tail

end PacketClass

namespace Frame

/-- The payload has what a header is made of. The header of a general event is
part of its payload and has to state the length by itself. -/
def HasHeader (f : Frame) : Prop :=
  match f.type with
  | .command | .aclData => 2 ≤ f.payload.length
  | .leMetaEvent => True
  | .generalEvent => PacketClass.event.LengthAgrees f.payload

/-- What stands behind the indicator byte: a payload with a length in its
header, and any other payload as it is. -/
theorem toH4_cases {f : Frame} (hmax : f.payload.length ≤ f.type.maxPayload) :
    ∃ body, f.toH4 = f.type.packetClass.indicator :: body ∧
      (f.type.packetClass.LengthAgrees body ∧ f.HasHeader ∨
        ¬ f.type.packetClass.LengthAgrees body ∧ ¬ f.HasHeader ∧ body = f.payload) := by
  obtain ⟨type, declared, payload⟩ := f
  have hwhole : payload.take type.maxPayload = payload := List.take_of_length_le hmax
  simp only [toH4, hwhole]
  cases type with
  | command =>
    rcases payload with _ | ⟨lo, _ | ⟨hi, params⟩⟩
    · exact ⟨_, rfl, .inr ⟨id, by simp [HasHeader], rfl⟩⟩
    · exact ⟨_, rfl, .inr ⟨id, by simp [HasHeader], rfl⟩⟩
    · have hlt : params.length < 256 := by
        simp only [List.length_cons, PacketType.maxPayload] at hmax
        omega
      exact ⟨_, rfl, .inl ⟨UInt8.toNat_ofNat_of_lt' hlt, by simp [HasHeader]⟩⟩
  | aclData =>
    rcases payload with _ | ⟨h0, _ | ⟨h1, data⟩⟩
    · exact ⟨_, rfl, .inr ⟨id, by simp [HasHeader], rfl⟩⟩
    · exact ⟨_, rfl, .inr ⟨id, by simp [HasHeader], rfl⟩⟩
    · have hlt : data.length < 65536 := by
        simp only [List.length_cons, PacketType.maxPayload] at hmax
        omega
      have hlo : (UInt8.ofNat (data.length % 256)).toNat = data.length % 256 :=
        UInt8.toNat_ofNat_of_lt' (Nat.mod_lt _ (by decide))
      have hhi : (UInt8.ofNat (data.length / 256)).toNat = data.length / 256 :=
        UInt8.toNat_ofNat_of_lt' (Nat.div_lt_of_lt_mul hlt)
      have hlength : (UInt8.ofNat (data.length % 256)).toNat +
          256 * (UInt8.ofNat (data.length / 256)).toNat = data.length := by
        rw [hlo, hhi]
        exact Nat.mod_add_div _ _
      exact ⟨_, rfl, .inl ⟨hlength, by simp [HasHeader]⟩⟩
  | leMetaEvent =>
    have hlt : payload.length < 256 := Nat.lt_succ_of_le hmax
    exact ⟨_, rfl, .inl ⟨UInt8.toNat_ofNat_of_lt' hlt, trivial⟩⟩
  | generalEvent =>
    by_cases h : PacketClass.event.LengthAgrees payload
    · exact ⟨_, rfl, .inl ⟨h, h⟩⟩
    · exact ⟨_, rfl, .inr ⟨h, h, rfl⟩⟩

end Frame

namespace Line

/-- The packet of a frame read from a line begins with the indicator byte of its
kind. It is complete exactly if the payload has what the header is made of;
otherwise the payload is packed as it is. A packet of a kind is of no other kind. -/
theorem isPacket_toH4_iff {tag line : String} {f : Frame} (h : decode tag line = .ok f) :
    f.toH4.head? = some f.type.packetClass.indicator ∧
      (f.type.packetClass.IsPacket f.toH4 ↔ f.HasHeader) ∧
      (∀ c : PacketClass, c.IsPacket f.toH4 → c = f.type.packetClass) ∧
      (¬ f.HasHeader → f.toH4 = f.type.packetClass.indicator :: f.payload) := by
  have hread : ReadFrom tag.toList line.toList f := readFrom_of_decodeChars h
  have hmax : f.payload.length ≤ f.type.maxPayload := hread.length_le
  obtain ⟨body, hbody, hcases⟩ := Frame.toH4_cases hmax
  have hhead : f.toH4.head? = some f.type.packetClass.indicator := by rw [hbody, List.head?_cons]
  have htail : f.toH4.tail = body := by rw [hbody, List.tail_cons]
  refine ⟨hhead, ?_, ?_, ?_⟩
  · rw [PacketClass.IsPacket, htail]
    obtain ⟨hlength, hheader⟩ | ⟨hlength, hheader, -⟩ := hcases
    · exact ⟨fun _ => hheader, fun _ => ⟨hhead, hlength⟩⟩
    · exact ⟨fun hpacket => absurd hpacket.2 hlength, fun h => absurd h hheader⟩
  · rintro c ⟨hc, -⟩
    exact PacketClass.indicator_injective (Option.some.inj (hc.symm.trans hhead))
  · intro hnot
    obtain ⟨-, hheader⟩ | ⟨-, -, rfl⟩ := hcases
    · exact absurd hheader hnot
    · exact hbody

/-- The line of a command, whose packet gets its length of parameters. -/
theorem isPacket_toH4_iff_command :
    let line := "[btsnoop]:pkt_type=[0x01],len=[0x04],data=[0c200100]"
    let f : Frame := ⟨.command, 4, [0x0C, 0x20, 0x01, 0x00]⟩
    decode defaultTag line = .ok f ∧ PacketClass.command.IsPacket f.toH4 ∧
      f.toH4 = [0x01, 0x0C, 0x20, 0x02, 0x01, 0x00] := by
  intro line f
  have hline : decode defaultTag line = .ok f := eq_ok_of_toOption (by decide +kernel)
  have hheader : f.HasHeader := by
    change 2 ≤ 4
    decide
  exact ⟨hline, (isPacket_toH4_iff hline).2.1.mpr hheader, rfl⟩

/-- A line is read, and the packet of its frame is no complete packet of any
kind. -/
def GivesIncomplete (line : String) : Prop :=
  ∃ f, decode defaultTag line = .ok f ∧ ∀ c : PacketClass, ¬ c.IsPacket f.toH4

/-- A command and ACL data with a single byte, and events without a length or
with a wrong one. -/
theorem givesIncomplete_short_or_wrong :
    GivesIncomplete "[btsnoop]:pkt_type=[0x01],len=[0x01],data=[0c]" ∧
      GivesIncomplete "[btsnoop]:pkt_type=[0x02],len=[0x01],data=[40]" ∧
      GivesIncomplete "[btsnoop]:pkt_type=[0x05],len=[0x01],data=[0e]" ∧
      GivesIncomplete "[btsnoop]:pkt_type=[0x05],len=[0x03],data=[0e05aa]" := by
  have hread : ∀ {line : String} {f : Frame}, (decode defaultTag line).toOption = some f →
      (∀ c : PacketClass, ¬ c.LengthAgrees f.toH4.tail) → GivesIncomplete line :=
    fun hline hnot => ⟨_, eq_ok_of_toOption hline, fun c hpacket => hnot c hpacket.2⟩
  refine ⟨hread (f := ⟨.command, 1, [0x0C]⟩) (by decide +kernel) fun c hlength => ?_,
    hread (f := ⟨.aclData, 1, [0x40]⟩) (by decide +kernel) fun c hlength => ?_,
    hread (f := ⟨.generalEvent, 1, [0x0E]⟩) (by decide +kernel) fun c hlength => ?_,
    hread (f := ⟨.generalEvent, 3, [0x0E, 0x05, 0xAA]⟩) (by decide +kernel) fun c hlength => ?_⟩
  · cases c <;> exact hlength
  · cases c <;> exact hlength
  · cases c <;> exact hlength
  · cases c with
    | command => exact absurd hlength (by decide : ¬ (0xAA : UInt8).toNat = 0)
    | acl => exact hlength
    | event => exact absurd hlength (by decide : ¬ (0x05 : UInt8).toNat = 1)

end Line

end BleCapture
