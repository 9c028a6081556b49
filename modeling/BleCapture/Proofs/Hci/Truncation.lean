import BleCapture.Proofs.Hci.Report

/-!
# Events that are cut off

An event cut at any byte gives the reports that end before the cut, and says of
the first report that is missing how much of it was there. Bytes behind the last
report are not looked at.
-/

namespace BleCapture

namespace Report

theorem canonical_of_type {r : Report} (h : ∃ code, r.type = AdvType.ofCode code) :
    r.canonical = r := by
  obtain ⟨code, hcode⟩ := h
  simp only [canonical, hcode, AdvType.code_ofCode]
  rw [← hcode]

theorem map_canonical {rs : List Report} (h : ∀ r ∈ rs, ∃ code, r.type = AdvType.ofCode code) :
    rs.map canonical = rs := by
  have hid : ∀ r ∈ rs, r.canonical = id r := fun r hr => canonical_of_type (h r hr)
  rw [List.map_congr_left hid, List.map_id]

theorem length_encodeAll (rs : List Report) :
    (encodeAll rs).length = 2 + (rs.flatMap encode).length := by
  simp only [encodeAll, List.length_cons]
  omega

-- ---------------------------------------------------------------------------
-- The first report that is missing
-- ---------------------------------------------------------------------------

/-- The fault of a report with number `index`, of which `left` bytes are there. -/
def cutFault (index : Nat) (r : Report) (left : Nat) : Fault :=
  if left < headerLength then .truncated .reportHeader
  else .overrun index r.data.length (left - headerLength)

theorem read_of_length_lt (index : Nat) {bytes : List UInt8} (h : bytes.length < headerLength) :
    read index bytes = .error (.truncated .reportHeader) := by
  unfold read
  split
  · simp only [headerLength, List.length_cons] at h
    omega
  · rfl

/-- The header of a report is whole, what follows is not. -/
theorem read_encode_take_of_le (index : Nat) {r : Report} (hdata : r.data.length < 256) {n : Nat}
    (hheader : headerLength ≤ n) (hcut : n < r.encode.length) :
    read index (r.encode.take n) = .error (.overrun index r.data.length (n - headerLength)) := by
  have hlen : (UInt8.ofNat r.data.length).toNat = r.data.length := UInt8.toNat_ofNat_of_lt' hdata
  obtain ⟨left, rfl⟩ : ∃ left, n = left + 9 := ⟨n - 9, (Nat.sub_add_cancel hheader).symm⟩
  rw [length_encode] at hcut
  have hleft : ((r.data ++ [r.rssi.toUInt8]).take left).length = left := by
    simp only [List.length_take, List.length_append, List.length_singleton]
    omega
  have hdrop : ((r.data ++ [r.rssi.toUInt8]).take left).drop r.data.length = [] :=
    List.drop_eq_nil_of_le (by omega)
  simp only [encode, Address.wireBytes, List.cons_append, List.nil_append, List.take_succ_cons,
    read, hlen, hdrop, hleft]
  rfl

theorem read_encode_take (index : Nat) {r : Report} (hdata : r.data.length < 256) {n : Nat}
    (hcut : n < r.encode.length) :
    read index (r.encode.take n) = .error (cutFault index r n) := by
  unfold cutFault
  split
  · rename_i hheader
    apply read_of_length_lt
    rw [List.length_take]
    omega
  · rename_i hheader
    exact read_encode_take_of_le index hdata (Nat.not_lt.mp hheader) hcut

-- ---------------------------------------------------------------------------
-- All reports
-- ---------------------------------------------------------------------------

/-- Reading stops at the first report `r` that does not end within the `n` bytes. -/
theorem readMany_take_stop (index : Nat) {done rest : List Report} {r : Report} {n : Nat}
    (hdata : ∀ p ∈ done ++ [r], p.data.length < 256)
    (hfits : (done.flatMap encode).length ≤ n)
    (hcut : n < (done.flatMap encode).length + r.encode.length) :
    readMany (done ++ r :: rest).length index (((done ++ r :: rest).flatMap encode).take n) =
      (done.map canonical,
        some (cutFault (index + done.length) r (n - (done.flatMap encode).length))) := by
  induction done generalizing index n with
  | nil =>
    have hr : r.data.length < 256 := hdata r (by simp)
    simp only [List.flatMap_nil, List.length_nil, Nat.zero_add] at hcut
    simp only [List.nil_append, List.length_cons, List.flatMap_cons, readMany,
      List.take_append_of_le_length (Nat.le_of_lt hcut), read_encode_take index hr hcut]
    rfl
  | cons p done ih =>
    have hp : p.data.length < 256 := hdata p (by simp)
    rw [List.flatMap_cons, List.length_append] at hfits hcut
    obtain ⟨m, rfl⟩ : ∃ m, n = p.encode.length + m := Nat.exists_eq_add_of_le (by omega)
    have hrest := ih (index + 1) (n := m) (fun q hq => hdata q (List.mem_cons_of_mem p hq))
      (by omega) (by omega)
    have hleft : p.encode.length + m - ((p :: done).flatMap encode).length =
        m - (done.flatMap encode).length := by
      rw [List.flatMap_cons, List.length_append, Nat.add_sub_add_left]
    have hindex : index + (p :: done).length = index + 1 + done.length := by
      rw [List.length_cons]
      omega
    rw [hleft, hindex, List.cons_append, List.flatMap_cons, List.take_length_add_append,
      List.length_cons, readMany_succ_encode_append _ _ hp, hrest, List.map_cons]

/-- As many reports as `n` bytes hold, and that the next one needs more. -/
theorem exists_longest_fitting (rs : List Report) (n : Nat) :
    ∃ done rest, rs = done ++ rest ∧ (done.flatMap encode).length ≤ n ∧
      ∀ r later, rest = r :: later → n < (done.flatMap encode).length + r.encode.length := by
  induction rs generalizing n with
  | nil => exact ⟨[], [], rfl, Nat.zero_le n, by simp⟩
  | cons r rs ih =>
    rcases Nat.lt_or_ge n r.encode.length with hcut | hfits
    · refine ⟨[], r :: rs, rfl, Nat.zero_le n, ?_⟩
      rintro p later ⟨⟩
      simpa using hcut
    · obtain ⟨done, rest, rfl, hdone, hnext⟩ := ih (n - r.encode.length)
      refine ⟨r :: done, rest, rfl, ?_, ?_⟩
      · rw [List.flatMap_cons, List.length_append]
        omega
      · intro p later hp
        have hlt := hnext p later hp
        rw [List.flatMap_cons, List.length_append]
        omega

/-- The split by which bytes are there is the one by which reports are read. -/
theorem readMany_take (index : Nat) {done rest : List Report} {n : Nat}
    (hdata : ∀ r ∈ done ++ rest, r.data.length < 256)
    (hfits : (done.flatMap encode).length ≤ n)
    (hnext : ∀ r later, rest = r :: later →
      n < (done.flatMap encode).length + r.encode.length) :
    readMany (done ++ rest).length index (((done ++ rest).flatMap encode).take n) =
      (done.map canonical, rest.head?.map fun r =>
        cutFault (index + done.length) r (n - (done.flatMap encode).length)) := by
  cases rest with
  | nil =>
    have hall := readMany_flatMap_encode index done (fun r hr => hdata r (by simp [hr])) []
    rw [List.append_nil] at hall ⊢
    rw [List.take_of_length_le hfits, hall]
    rfl
  | cons r later =>
    refine readMany_take_stop index (fun p hp => hdata p ?_) hfits (hnext r later rfl)
    rw [List.mem_append, List.mem_singleton] at hp
    rcases hp with hp | rfl <;> simp_all

end Report

-- ---------------------------------------------------------------------------
-- The event
-- ---------------------------------------------------------------------------

/-- What is left of an event with the reports `rs` after a cut behind byte `n`. -/
structure LeMetaEvent.CutAt (rs : List Report) (n : Nat) (event : LeMetaEvent) : Prop where
  subevent : event.subevent = Report.subeventCode
  leading : event.reports <+: rs
  fits : (Report.encodeAll event.reports).length ≤ n
  longest : ∀ ps, ps <+: rs → (Report.encodeAll ps).length ≤ n → ps <+: event.reports
  fault_none : event.fault = none ↔ event.reports = rs
  /-- Of the next report the header is cut, or else what follows it. -/
  fault : ∀ r later, rs = event.reports ++ r :: later →
    let left := n - (Report.encodeAll event.reports).length
    event.fault = some
      (if left < 9 then .truncated .reportHeader
      else .overrun event.reports.length r.data.length (left - 9))

namespace LeMetaEvent

open Report (encode encodeAll cutFault length_encodeAll)

theorem cutAt_split {done rest : List Report} {n : Nat} (hfits : (encodeAll done).length ≤ n)
    (hnext : ∀ r later, rest = r :: later → n < (encodeAll done).length + r.encode.length) :
    CutAt (done ++ rest) n ⟨Report.subeventCode, done, rest.head?.map fun r =>
      cutFault done.length r (n - (encodeAll done).length)⟩ where
  subevent := rfl
  leading := List.prefix_append done rest
  fits := hfits
  longest := by
    intro ps hps hlen
    rcases List.prefix_or_prefix_of_prefix hps (List.prefix_append done rest) with h | ⟨more, rfl⟩
    · exact h
    -- A longer prefix holds the report that does not fit.
    · obtain ⟨later, hlater⟩ := hps
      rw [List.append_assoc, List.append_cancel_left_eq] at hlater
      cases more with
      | nil => simp
      | cons r more =>
        have hlt := hnext r (more ++ later) hlater.symm
        simp only [length_encodeAll, List.flatMap_append, List.flatMap_cons,
          List.length_append] at hlen hlt
        omega
  fault_none := by
    cases rest <;> simp
  fault := by
    intro r later hrest
    rw [List.append_cancel_left_eq] at hrest
    rw [hrest]
    rfl

end LeMetaEvent

/-- An event with at most 255 reports of at most 255 bytes each, cut behind any
byte: without its code and its count it has no interpretation, after them it has
the reports that are whole. Bytes after the last report change nothing. -/
theorem Frame.leMetaEvent_take_encodeAll (declared : UInt16) (rs : List Report)
    (hcount : rs.length ≤ 255) (hdata : ∀ r ∈ rs, r.data.length ≤ 255)
    (htype : ∀ r ∈ rs, ∃ code, r.type = AdvType.ofCode code) :
    let cut (n : Nat) : Frame := ⟨.leMetaEvent, declared, (Report.encodeAll rs).take n⟩
    (cut 0).leMetaEvent = .error (.truncated .subeventCode) ∧
      (cut 1).leMetaEvent = .error (.truncated .reportCount) ∧
      (∀ n, 2 ≤ n → ∃ event, (cut n).leMetaEvent = .ok event ∧ event.CutAt rs n) ∧
      ∀ extra, Frame.leMetaEvent ⟨.leMetaEvent, declared, Report.encodeAll rs ++ extra⟩ =
        .ok ⟨Report.subeventCode, rs, none⟩ := by
  intro cut
  have hlen : (UInt8.ofNat rs.length).toNat = rs.length :=
    UInt8.toNat_ofNat_of_lt' (Nat.lt_succ_of_le hcount)
  have hlt : ∀ r ∈ rs, r.data.length < 256 := fun r hr => Nat.lt_succ_of_le (hdata r hr)
  have hmap := Report.map_canonical htype
  refine ⟨rfl, rfl, ?_, ?_⟩
  · intro n hn
    obtain ⟨m, rfl⟩ : ∃ m, n = m + 2 := ⟨n - 2, (Nat.sub_add_cancel hn).symm⟩
    obtain ⟨done, rest, hsplit, hfits, hnext⟩ := Report.exists_longest_fitting rs m
    subst hsplit
    have hread := Report.readMany_take 0 hlt hfits hnext
    have hdone : done.map Report.canonical = done :=
      Report.map_canonical fun r hr => htype r (List.mem_append_left rest hr)
    have hleft : m - (done.flatMap Report.encode).length =
        m + 2 - (Report.encodeAll done).length := by
      rw [Report.length_encodeAll]
      omega
    rw [hdone, Nat.zero_add, hleft] at hread
    refine ⟨_, ?_, LeMetaEvent.cutAt_split (n := m + 2) ?_ ?_⟩
    · simp only [cut, leMetaEvent, Report.encodeAll, List.take_succ_cons, hlen] at hread ⊢
      simp only [hread, ne_eq, not_true_eq_false, if_false]
    · rw [Report.length_encodeAll]
      omega
    · intro r later hr
      have hlt := hnext r later hr
      rw [Report.length_encodeAll]
      omega
  · intro extra
    have hread := Report.readMany_flatMap_encode 0 rs hlt extra
    simp only [leMetaEvent, Report.encodeAll, List.cons_append, hlen, hread, hmap, ne_eq,
      not_true_eq_false, if_false]

/-- The second of two reports has lost its signal strength and two bytes of data. -/
theorem Frame.leMetaEvent_take_within_data :
    let whole : Report := ⟨.connectable, .random, ⟨0xC0, 1, 2, 3, 4, 5⟩, -40, [0x02, 0x01, 0x06]⟩
    let lost : Report := ⟨.connectable, .random, ⟨0xC0, 1, 2, 3, 4, 6⟩, -50, [1, 2, 3]⟩
    let rs := [whole, lost]
    rs.length ≤ 255 ∧ (∀ r ∈ rs, r.data.length ≤ 255) ∧
      (∀ r ∈ rs, ∃ code, r.type = AdvType.ofCode code) ∧
      ∃ event, Frame.leMetaEvent ⟨.leMetaEvent, 25, (Report.encodeAll rs).take 25⟩ = .ok event ∧
        event.CutAt rs 25 ∧ event.fault = some (.overrun 1 3 1) := by
  intro whole lost rs
  have hcount : rs.length ≤ 255 := by decide
  have hdata : ∀ r ∈ rs, r.data.length ≤ 255 := by decide
  have htype : ∀ r ∈ rs, ∃ code, r.type = AdvType.ofCode code := by
    intro r hr
    simp only [rs, List.mem_cons, List.not_mem_nil, or_false] at hr
    rcases hr with rfl | rfl <;> exact ⟨0, rfl⟩
  obtain ⟨event, hevent, hcut⟩ :=
    (Frame.leMetaEvent_take_encodeAll 25 rs hcount hdata htype).2.2.1 25 (by decide)
  have hfault : event = ⟨Report.subeventCode, [whole], some (.overrun 1 3 1)⟩ :=
    Except.ok.inj (hevent.symm.trans rfl)
  exact ⟨hcount, hdata, htype, event, hevent, hcut, by rw [hfault]⟩

end BleCapture
