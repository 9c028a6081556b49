/-!
# Byte sinks

Where output goes. A sink may have room for so many bytes only: a write that
does not fit fills it to the brim and fails, and so does every later write.
-/

namespace BleCapture

inductive IoErrorKind where
  | notFound
  | isADirectory
  | notADirectory
  | brokenPipe
  | writeZero
  | storageFull
  | nameTooLong
  | invalidName
  | other
  deriving DecidableEq, Repr

structure IoError where
  kind : IoErrorKind
  message : String
  deriving DecidableEq, Repr

/-- A slice of memory refuses what does not fit. -/
def IoError.writeZero : IoError := ⟨.writeZero, "failed to write whole buffer"⟩

/-- The size of a sink that nothing was written to. -/
theorem Sink.size_nil : 0 = ([] : List (List UInt8)).flatten.length := rfl

structure Sink where
  /-- What was written, the latest part first. -/
  parts : List (List UInt8) := []
  size : Nat := 0
  limit : Option Nat := none
  /-- The error of a write that does not fit. -/
  failure : IoError := IoError.writeZero
  size_eq : size = parts.flatten.length := by exact Sink.size_nil

namespace Sink

def bytes (s : Sink) : List UInt8 := s.parts.reverse.flatten

def append (s : Sink) (bs : List UInt8) : Sink :=
  { s with
    parts := bs :: s.parts
    size := bs.length + s.size
    size_eq := by simp [s.size_eq] }

/-- Writes all of `bs`, or as much as fits and then fails. -/
def write (s : Sink) (bs : List UInt8) : Sink × Option IoError :=
  match s.limit with
  | none => (s.append bs, none)
  | some n =>
    if s.size + bs.length ≤ n then (s.append bs, none)
    else (s.append (bs.take (n - s.size)), some s.failure)

@[simp] theorem bytes_append (s : Sink) (bs : List UInt8) :
    (s.append bs).bytes = s.bytes ++ bs := by
  simp [bytes, append]

end Sink

end BleCapture
