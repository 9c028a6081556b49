import BleCapture.Text.Blank
import BleCapture.Text.Number
import BleCapture.Text.Utf8

/-!
# Device addresses

Six bytes, kept in display order: most significant first. The air and the host
controller send them the other way round.
-/

namespace BleCapture

structure Address where
  b0 : UInt8
  b1 : UInt8
  b2 : UInt8
  b3 : UInt8
  b4 : UInt8
  b5 : UInt8
  deriving DecidableEq, Repr, Inhabited

namespace Address

/-- Display order. -/
def bytes (a : Address) : List UInt8 := [a.b0, a.b1, a.b2, a.b3, a.b4, a.b5]

/-- Wire order, least significant byte first. -/
def wireBytes (a : Address) : List UInt8 := [a.b5, a.b4, a.b3, a.b2, a.b1, a.b0]

def ofWire (w0 w1 w2 w3 w4 w5 : UInt8) : Address := ⟨w5, w4, w3, w2, w1, w0⟩

/-- The registered part that names a vendor. -/
def vendorBytes (a : Address) : UInt8 × UInt8 × UInt8 := (a.b0, a.b1, a.b2)

/-- The bytes as one number; addresses are ordered by it. -/
def toNat (a : Address) : Nat :=
  a.bytes.foldl (fun n b => n * 256 + b.toNat) 0

/-- Two capital hex digits a byte, separated by colons. -/
def text (a : Address) : List Char :=
  List.intercalate [':'] (a.bytes.map fun b => Text.upperHex 2 b.toNat)

def toString (a : Address) : String := String.ofList a.text

inductive ParseError where
  | partCount (count : Nat)
  | partLength (index : Nat)
  | notHex (part : String)
  deriving DecidableEq, Repr

def ParseError.message : ParseError → String
  | .partCount count =>
    "invalid MAC address: expected 6 parts, got " ++ String.ofList (Text.decimal count)
  | .partLength index =>
    "invalid MAC address: part " ++ String.ofList (Text.decimal index) ++ " has wrong length"
  | .notHex part => "invalid MAC address: '" ++ part ++ "' is not valid hex"

/-- One part: two bytes of text that read as a hex number, which may carry a
plus sign. -/
def parsePart (index : Nat) (part : List Char) : Except ParseError UInt8 :=
  if Text.Utf8.encodedLength part ≠ 2 then .error (.partLength index)
  else
    match Text.readNumber? 16 256 part with
    | some n => .ok (UInt8.ofNat n)
    | none => .error (.notHex (String.ofList part))

def parseChars (s : List Char) : Except ParseError Address :=
  match (Text.trim s).splitOn ':' with
  | [p0, p1, p2, p3, p4, p5] => do
    let b0 ← parsePart 0 p0
    let b1 ← parsePart 1 p1
    let b2 ← parsePart 2 p2
    let b3 ← parsePart 3 p3
    let b4 ← parsePart 4 p4
    let b5 ← parsePart 5 p5
    return ⟨b0, b1, b2, b3, b4, b5⟩
  | parts => .error (.partCount parts.length)

/-- Reads six hex parts separated by colons, with blanks around the whole. The
first bad part decides the error. -/
def parse (s : String) : Except ParseError Address :=
  parseChars s.toList

end Address

end BleCapture
