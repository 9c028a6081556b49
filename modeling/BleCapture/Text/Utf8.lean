/-!
# UTF-8

Encoding, and decoding that never fails: every maximal ill-formed subpart
becomes one replacement character. A subpart is the longest run that some
well-formed sequence starts with, or else a single byte.
-/

namespace BleCapture.Text.Utf8

def encode (s : List Char) : List UInt8 :=
  s.flatMap String.utf8EncodeChar

def encodedLength (s : List Char) : Nat :=
  s.foldr (fun c n => c.utf8Size + n) 0

def replacement : Char := Char.ofNat 0xFFFD

/-- A sequence begun but not finished: the continuation bytes still owed, the
range the next one must fall in, and the value of the bits read so far. -/
structure Pending where
  owed : Nat
  low : UInt8
  high : UInt8
  value : Nat
  deriving DecidableEq, Repr

/-- What a byte means where a character may start. -/
inductive Lead where
  | char (c : Char)
  | sequence (p : Pending)
  | invalid
  deriving Repr

/-- The lead bytes of the well-formed sequences, with the narrowed second
byte that excludes overlong forms, surrogates and values past 10FFFF. -/
def lead (b : UInt8) : Lead :=
  if b < 0x80 then .char (Char.ofNat b.toNat)
  else if b < 0xC2 then .invalid
  else if b < 0xE0 then .sequence ⟨1, 0x80, 0xBF, b.toNat - 0xC0⟩
  else if b = 0xE0 then .sequence ⟨2, 0xA0, 0xBF, 0⟩
  else if b = 0xED then .sequence ⟨2, 0x80, 0x9F, b.toNat - 0xE0⟩
  else if b < 0xF0 then .sequence ⟨2, 0x80, 0xBF, b.toNat - 0xE0⟩
  else if b = 0xF0 then .sequence ⟨3, 0x90, 0xBF, 0⟩
  else if b < 0xF4 then .sequence ⟨3, 0x80, 0xBF, b.toNat - 0xF0⟩
  else if b = 0xF4 then .sequence ⟨3, 0x80, 0x8F, b.toNat - 0xF0⟩
  else .invalid

/-- One byte: the characters it completes and the sequence left open. -/
def step : Option Pending → UInt8 → List Char × Option Pending
  | none, b =>
    match lead b with
    | .char c => ([c], none)
    | .sequence p => ([], some p)
    | .invalid => ([replacement], none)
  | some p, b =>
    if p.low ≤ b ∧ b ≤ p.high then
      let value := p.value * 64 + (b.toNat - 0x80)
      if p.owed = 1 then ([Char.ofNat value], none)
      else ([], some ⟨p.owed - 1, 0x80, 0xBF, value⟩)
    else
      match lead b with
      | .char c => ([replacement, c], none)
      | .sequence q => ([replacement], some q)
      | .invalid => ([replacement, replacement], none)

/-- Decodes from the middle of a sequence; one that the end cuts off is
ill-formed. -/
def decodeFrom : Option Pending → List UInt8 → List Char
  | none, [] => []
  | some _, [] => [replacement]
  | p, b :: rest => (step p b).1 ++ decodeFrom (step p b).2 rest

/-- The text of a byte string, with replacement characters for noise. -/
def decode (bytes : List UInt8) : List Char :=
  decodeFrom none bytes

end BleCapture.Text.Utf8
