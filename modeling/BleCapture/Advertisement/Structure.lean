/-!
# Advertisement structures

An advertisement payload is a sequence of entries, each a length byte, a type
byte and data; the length counts the type. Reading stops for good at a zero
length or at an entry that runs past the end.
-/

namespace BleCapture

structure AdStructure where
  type : UInt8
  data : List UInt8
  deriving DecidableEq, Repr

namespace AdStructure

/-- The entry in wire form. Its length byte is right for at most 254 data
bytes. -/
def encode (s : AdStructure) : List UInt8 :=
  UInt8.ofNat (s.data.length + 1) :: s.type :: s.data

/-- Splits the first entry off a payload. -/
def next? : List UInt8 → Option (AdStructure × List UInt8)
  | length :: type :: rest =>
    let data := rest.take (length.toNat - 1)
    if length.toNat = 0 ∨ data.length + 1 < length.toNat then none
    else some (⟨type, data⟩, rest.drop (length.toNat - 1))
  | _ => none

theorem next?_length {p rest : List UInt8} {s : AdStructure} (h : next? p = some (s, rest)) :
    rest.length < p.length := by
  unfold next? at h
  split at h
  · dsimp only at h
    split at h
    · simp at h
    · simp only [Option.some.injEq, Prod.mk.injEq] at h
      rw [← h.2]
      simp only [List.length_drop, List.length_cons]
      omega
  · simp at h

/-- All entries of a payload up to the first that is malformed. -/
def parse (payload : List UInt8) : List AdStructure :=
  match _h : next? payload with
  | some (s, rest) => s :: parse rest
  | none => []
termination_by payload.length
decreasing_by exact next?_length _h

/-- A payload that is read one entry at a time. -/
structure Reader where
  payload : List UInt8
  /-- Where the next entry begins. -/
  offset : Nat := 0
  deriving Repr

/-- Gives the next entry. Where none begins, the reader moves to the end, so that
it gives none from then on. -/
def Reader.next (r : Reader) : Option AdStructure × Reader :=
  match next? (r.payload.drop r.offset) with
  | some (s, _) => (some s, { r with offset := r.offset + s.encode.length })
  | none => (none, { r with offset := max r.offset r.payload.length })

/-- What the next `n` calls give. -/
def Reader.calls : Nat → Reader → List (Option AdStructure)
  | 0, _ => []
  | n + 1, r => r.next.1 :: calls n r.next.2

end AdStructure

end BleCapture
