import BleCapture.Proofs.Advertisement.Structure

/-!
# The grammar of a payload

Every payload is a sequence of entries followed by bytes with which none begins, in
one way only. The entries of that one way are the ones that are read, all at once or
call by call.
-/

namespace BleCapture.AdStructure

-- ---------------------------------------------------------------------------
-- The only way to split a payload
-- ---------------------------------------------------------------------------

/-- Entries in wire form are read back, whatever follows them. -/
theorem parse_flatMap_encode_append {entries : List AdStructure}
    (h : ∀ s ∈ entries, s.data.length ≤ 254) (q : List UInt8) :
    parse (entries.flatMap encode ++ q) = entries ++ parse q := by
  induction entries with
  | nil => rfl
  | cons s entries ih =>
    obtain ⟨hs, hentries⟩ := List.forall_mem_cons.mp h
    have hfirst := next?_encode_append s (Nat.lt_succ_of_le hs) (entries.flatMap encode ++ q)
    rw [List.flatMap_cons, List.append_assoc, parse_of_next? hfirst, ih hentries, List.cons_append]

theorem Splits.entries_eq {p tail : List UInt8} {entries : List AdStructure}
    (h : Splits p entries tail) : entries = parse p := by
  rw [h.eq, parse_flatMap_encode_append h.fits, parse_of_halts h.halts, List.append_nil]

theorem Splits.tail_unique {p tail tail' : List UInt8} {entries : List AdStructure}
    (h : Splits p entries tail) (h' : Splits p entries tail') : tail = tail' :=
  List.append_cancel_left (h.eq.symm.trans h'.eq)

-- ---------------------------------------------------------------------------
-- Call by call
-- ---------------------------------------------------------------------------

theorem Reader.next_eq (r : Reader) :
    r.next.1 = (parse (r.payload.drop r.offset)).head? ∧ r.next.2.payload = r.payload ∧
      parse (r.payload.drop r.next.2.offset) = (parse (r.payload.drop r.offset)).tail := by
  unfold next
  cases h : next? (r.payload.drop r.offset) with
  | none =>
    have hend : r.payload.drop (max r.offset r.payload.length) = [] :=
      List.drop_eq_nil_iff.mpr (Nat.le_max_right _ _)
    rw [parse_of_next?_none h]
    exact ⟨rfl, rfl, by rw [hend, parse_of_halts .empty]; rfl⟩
  | some found =>
    obtain ⟨s, rest⟩ := found
    have hrest : r.payload.drop (r.offset + s.encode.length) = rest := by
      rw [← List.drop_drop, (eq_encode_append_of_next? h).1, List.drop_left]
    rw [parse_of_next? h]
    exact ⟨rfl, rfl, by rw [hrest]; rfl⟩

/-- Each call gives the entry whose turn it is, and none after the last. -/
theorem Reader.calls_eq (r : Reader) (n : Nat) :
    r.calls n = (List.range n).map fun i => (parse (r.payload.drop r.offset))[i]? := by
  induction n generalizing r with
  | zero => rfl
  | succ n ih =>
    obtain ⟨hfirst, hpayload, hrest⟩ := r.next_eq
    rw [calls, ih, hfirst, hpayload, hrest, List.range_succ_eq_map, List.map_cons, List.map_map,
      List.head?_eq_getElem?]
    simp only [List.getElem?_tail, Function.comp_def]

/-- A payload is its entries and a tail in exactly one way. A reader gives these
entries in turn and then none, however often it is called. Entries in front of other
bytes are read before what is read of those, and of the front of a payload the
entries that end in it. -/
theorem parse_splits_payload (p : List UInt8) :
    (∃ tail, ∀ entries rest, Splits p entries rest ↔ entries = parse p ∧ rest = tail) ∧
      (∀ n, ({ payload := p } : Reader).calls n = (List.range n).map fun i => (parse p)[i]?) ∧
      (∀ entries : List AdStructure, (∀ s ∈ entries, s.data.length ≤ 254) → ∀ q,
        parse (entries.flatMap encode ++ q) = entries ++ parse q) ∧
      ∀ k, parse (p.take k) = endingBy k (parse p) := by
  obtain ⟨tail, htail⟩ := exists_splits_parse p
  refine ⟨⟨tail, fun entries rest => ⟨fun h => ?_, ?_⟩⟩, fun n => ?_, fun entries h q => ?_, ?_⟩
  · obtain rfl := h.entries_eq
    exact ⟨rfl, h.tail_unique htail⟩
  · rintro ⟨rfl, rfl⟩
    exact htail
  · exact Reader.calls_eq { payload := p } n
  · exact parse_flatMap_encode_append h q
  · exact parse_take p

end BleCapture.AdStructure
