import BleCapture.Proofs.Hci.Truncation

/-!
# Events of any bytes

What is read from an event whose bytes nobody vouches for. The reports are the
front of the body, byte for byte up to the spelling of an address type, and
reading ends before the announced count only where no further report fits.
-/

namespace BleCapture

theorem AddressType.code_ofCode (c : UInt8) : (ofCode c).code = if c = 0 then 0 else 1 := by
  unfold ofCode
  split <;> rfl

namespace Report

/-- The bytes of a report with their address type spelled as a writer spells it. -/
def respell : List UInt8 → List UInt8
  | type :: addressType :: rest => type :: (if addressType = 0 then 0 else 1) :: rest
  | bytes => bytes

@[simp] theorem length_respell (bytes : List UInt8) : (respell bytes).length = bytes.length := by
  unfold respell
  split <;> rfl

/-- Why no report with number `index` fits into `bytes`. -/
inductive Shortage (index : Nat) (bytes : List UInt8) : Fault → Prop where
  | header : bytes.length < headerLength → Shortage index bytes (.truncated .reportHeader)
  | data (declared : UInt8) : bytes[8]? = some declared →
      bytes.length < headerLength + declared.toNat + 1 →
      Shortage index bytes (.overrun index declared.toNat (bytes.length - headerLength))

-- ---------------------------------------------------------------------------
-- One report
-- ---------------------------------------------------------------------------

theorem exists_header {bytes : List UInt8} (h : headerLength ≤ bytes.length) :
    ∃ type addressType w0 w1 w2 w3 w4 w5 declared rest, bytes =
      type :: addressType :: w0 :: w1 :: w2 :: w3 :: w4 :: w5 :: declared :: rest := by
  rcases bytes with _ | ⟨type, _ | ⟨addressType, _ | ⟨w0, _ | ⟨w1, _ | ⟨w2, _ | ⟨w3, _ | ⟨w4,
    _ | ⟨w5, _ | ⟨declared, rest⟩⟩⟩⟩⟩⟩⟩⟩⟩
  all_goals first
    | exact ⟨type, addressType, w0, w1, w2, w3, w4, w5, declared, rest, rfl⟩
    | simp [headerLength] at h

/-- A report is read off the front of the bytes, or it does not fit into them. -/
theorem read_cases (index : Nat) (bytes : List UInt8) :
    (∃ r piece rest, read index bytes = .ok (r, rest) ∧ bytes = piece ++ rest ∧
      r.encode = respell piece) ∨
    (∃ fault, read index bytes = .error fault ∧ Shortage index bytes fault) := by
  rcases Nat.lt_or_ge bytes.length headerLength with hshort | hlong
  · exact .inr ⟨_, read_of_length_lt index hshort, .header hshort⟩
  obtain ⟨type, addressType, w0, w1, w2, w3, w4, w5, declared, rest, rfl⟩ := exists_header hlong
  cases hdrop : rest.drop declared.toNat with
  | nil =>
    have hlen : rest.length ≤ declared.toNat := List.drop_eq_nil_iff.mp hdrop
    refine .inr ⟨_, by simp only [read, hdrop]; rfl, .data declared rfl ?_⟩
    simp only [List.length_cons, headerLength]
    omega
  | cons rssi tail =>
    have hrest : rest = rest.take declared.toNat ++ [rssi] ++ tail := by
      simp [← hdrop]
    have hlen : min declared.toNat rest.length = declared.toNat := by
      have hpos := congrArg List.length hdrop
      simp only [List.length_drop, List.length_cons] at hpos
      omega
    refine .inl ⟨_, type :: addressType :: w0 :: w1 :: w2 :: w3 :: w4 :: w5 :: declared ::
      (rest.take declared.toNat ++ [rssi]), tail, by simp only [read, hdrop]; rfl, ?_, ?_⟩
    · simpa using hrest
    · simp [encode, respell, Address.ofWire, Address.wireBytes, AddressType.code_ofCode, hlen]

-- ---------------------------------------------------------------------------
-- All reports
-- ---------------------------------------------------------------------------

/-- What `count` reports, the first of which has number `index`, are to the
bytes they are read from. -/
structure ReadFrom (count index : Nat) (bytes : List UInt8) (reports : List Report)
    (fault : Option Fault) : Prop where
  length_le : reports.length ≤ count
  length_eq_iff : reports.length = count ↔ fault = none
  spelled : ∃ (pieces : List (List UInt8)) (rest : List UInt8), bytes = pieces.flatten ++ rest ∧
    reports.map encode = pieces.map respell ∧
    ∀ f, fault = some f → Shortage (index + reports.length) rest f

theorem readFrom_readMany (count index : Nat) (bytes : List UInt8) :
    ReadFrom count index bytes (readMany count index bytes).1 (readMany count index bytes).2 := by
  induction count generalizing index bytes with
  | zero => exact ⟨Nat.le_refl 0, by simp [readMany], [], bytes, rfl, rfl, by simp [readMany]⟩
  | succ count ih =>
    rcases read_cases index bytes with ⟨r, piece, tail, hread, rfl, hpiece⟩ | ⟨f, hread, hshort⟩
    · obtain ⟨hle, heq, pieces, rest, rfl, hspelled, hfault⟩ := ih (index + 1) tail
      simp only [readMany, hread]
      refine ⟨?_, ?_, piece :: pieces, rest, ?_, ?_, ?_⟩
      · simpa using hle
      · simpa using heq
      · simp
      · simp [hspelled, hpiece]
      · simpa [Nat.add_assoc, Nat.add_comm 1] using hfault
    · simp only [readMany, hread]
      exact ⟨by simp, by simp, [], bytes, rfl, rfl, by rintro _ ⟨⟩; exact hshort⟩

end Report

/-- An advertising event reads as some event whatever follows its count: with no
more reports than announced, and with all of them unless it has a fault. Writing
its reports gives back the front of the body, where an address type other than
zero is spelled one; behind a fault too few bytes are left for another report. -/
theorem Frame.leMetaEvent_of_body (declared : UInt16) (count : UInt8) (body : List UInt8) :
    ∃ event, Frame.leMetaEvent ⟨.leMetaEvent, declared, 0x02 :: count :: body⟩ = .ok event ∧
      event.subevent = 0x02 ∧
      event.reports.length ≤ count.toNat ∧
      (event.reports.length = count.toNat ↔ event.fault = none) ∧
      ∃ (pieces : List (List UInt8)) (rest : List UInt8), body = pieces.flatten ++ rest ∧
        event.reports.map Report.encode = pieces.map Report.respell ∧
        (Report.encodeAll event.reports).drop 2 = (pieces.map Report.respell).flatten ∧
        (Report.encodeAll event.reports).length = 2 + pieces.flatten.length ∧
        ∀ fault, event.fault = some fault → Report.Shortage event.reports.length rest fault := by
  obtain ⟨hle, heq, pieces, rest, hbody, hspelled, hfault⟩ :=
    Report.readFrom_readMany count.toNat 0 body
  rw [Nat.zero_add] at hfault
  have hwritten : ((Report.readMany count.toNat 0 body).1.flatMap Report.encode) =
      (pieces.map Report.respell).flatten := by
    rw [← hspelled, List.flatMap_def]
  refine ⟨⟨0x02, _, _⟩, ?_, rfl, hle, heq, pieces, rest, hbody, hspelled, hwritten,
    ?_, hfault⟩
  · simp [leMetaEvent, Report.subeventCode]
  · simp [Report.length_encodeAll, hwritten, List.length_flatten, Function.comp_def]

end BleCapture
