import BleCapture.Sink

/-!
# Documents

A document is written piece by piece. The first piece that the sink refuses
ends the writing, and the layer that was writing it names the error.
-/

namespace BleCapture

/-- Which layer met an output error. -/
inductive ExportLayer where
  | output
  | json
  | csv
  deriving DecidableEq, Repr

structure ExportError where
  layer : ExportLayer
  cause : IoError
  deriving DecidableEq, Repr

def ExportError.message (e : ExportError) : String := e.cause.message

structure Piece where
  bytes : List UInt8
  layer : ExportLayer
  deriving DecidableEq, Repr

abbrev Document := List Piece

namespace Document

def bytes (d : Document) : List UInt8 := d.flatMap Piece.bytes

/-- Writes the pieces in order up to the first failure. -/
def writeTo : Document → Sink → Sink × Option ExportError
  | [], s => (s, none)
  | p :: rest, s =>
    match s.write p.bytes with
    | (s, some e) => (s, some ⟨p.layer, e⟩)
    | (s, none) => writeTo rest s

/-- Bytes that file output holds back before it writes them. -/
def bufferCapacity : Nat := 8192

/-- The same document through a buffer. Held bytes go out when the next piece
does not fit beside them, and at the end; large pieces pass at once. -/
def buffered (held : List UInt8) : Document → Document
  | [] => [⟨held, .output⟩]
  | p :: rest =>
    if held.length + p.bytes.length ≤ bufferCapacity ∧ p.bytes.length < bufferCapacity then
      buffered (held ++ p.bytes) rest
    else if p.bytes.length < bufferCapacity then ⟨held, p.layer⟩ :: buffered p.bytes rest
    else ⟨held, p.layer⟩ :: p :: buffered [] rest

end Document

end BleCapture
