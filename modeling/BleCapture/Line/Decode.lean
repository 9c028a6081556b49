import BleCapture.Hci.Frame
import BleCapture.Line.Field
import BleCapture.Text.Hex

/-!
# Reading transport lines

One frame a line: a tag, a colon, and the fields for packet type, length and
data. Console text may precede the tag, and some consoles show the x of a hex
number as a multiplication sign. Lines are independent of each other.
-/

namespace BleCapture.Line

inductive Error where
  | missingTag
  | missingField (name : FieldName)
  | invalidField (name : FieldName) (value : String)
  | invalidHex (cause : Text.Hex.Error)
  | lengthMismatch (declared actual : Nat)
  | unknownPacketType (code : UInt8)
  | tooLong (type : PacketType) (length : Nat)
  deriving DecidableEq, Repr

private def number (n : Nat) : String := String.ofList (Text.decimal n)

def Error.message : Error → String
  | .missingTag => "line does not start with the expected tag"
  | .missingField name => "missing field '" ++ name.text ++ "'"
  | .invalidField name value =>
    "field '" ++ name.text ++ "' has invalid value '" ++ value ++ "'"
  | .invalidHex cause => "data is not valid hex: " ++ cause.message
  | .lengthMismatch declared actual =>
    "declared length " ++ number declared ++ " does not match " ++ number actual ++ " data bytes"
  | .unknownPacketType code =>
    "unknown packet type 0x" ++ String.ofList (Text.lowerHex 2 code.toNat)
  | .tooLong type length =>
    type.name ++ " of " ++ number length ++ " bytes exceeds the " ++ number type.maxPayload ++
      "-byte limit"

def defaultTag : String := "[btsnoop]"

/-- The sign that some consoles show in place of the letter x. -/
def multiplicationSign : Char := Char.ofNat 0xD7

/-- The line without outer blanks, with every multiplication sign read as x. -/
def normalize (line : List Char) : List Char :=
  (Text.trim line).map fun c => if c = multiplicationSign then 'x' else c

/-- A hex number below `bound`, with or without the `0x` in front. -/
def hexNumber? (bound : Nat) (s : List Char) : Option Nat :=
  let digits := match s with
    | '0' :: 'x' :: rest => rest
    | '0' :: 'X' :: rest => rest
    | _ => s
  Text.readNumber? 16 bound digits

/-- The value of a field that must be there. -/
def require (name : FieldName) (s : List Char) : Except Error (List Char) :=
  match field? name s with
  | some value => .ok value
  | none => .error (.missingField name)

def requireNumber (name : FieldName) (bound : Nat) (s : List Char) : Except Error Nat := do
  let value ← require name s
  match hexNumber? bound value with
  | some n => return n
  | none => throw (.invalidField name (String.ofList value))

def decodeFields (s : List Char) : Except Error Frame := do
  let code ← requireNumber .packetType 256 s
  match PacketType.ofCode? (UInt8.ofNat code) with
  | none => throw (.unknownPacketType (UInt8.ofNat code))
  | some type =>
    let declared ← requireNumber .length 65536 s
    let digits ← require .data s
    match Text.Hex.decode digits with
    | .error cause => throw (.invalidHex cause)
    | .ok payload =>
      if declared ≠ payload.length then throw (.lengthMismatch declared payload.length)
      else if type.maxPayload < payload.length then throw (.tooLong type payload.length)
      else return ⟨type, UInt16.ofNat declared, payload⟩

/-- Removes the blanks and the colon between a tag and its fields. -/
def afterColon (s : List Char) : List Char :=
  match Text.trimStart s with
  | ':' :: rest => rest
  | rest => rest

/-- Reads a line as a frame. The tag itself is not normalized, so a tag with a
multiplication sign is never found. -/
def decodeChars (tag line : List Char) : Except Error Frame :=
  match Text.after? tag (normalize line) with
  | none => .error .missingTag
  | some rest => decodeFields (afterColon rest)

def decode (tag line : String) : Except Error Frame :=
  decodeChars tag.toList line.toList

/-- Whether a line looks like a frame: it is no stop marker, and it holds the
tag or the name of the packet type field. -/
def isCandidate (tag line : List Char) : Bool :=
  let line := Text.trim line
  !line.isEmpty && !(":Stop".toList.isSuffixOf line) &&
    (Text.occursIn tag line || Text.occursIn FieldName.packetType.text.toList line)

def decodeChars? (tag line : List Char) : Option (Except Error Frame) :=
  if isCandidate tag line then some (decodeChars tag (Text.trim line)) else none

/-- Reads a line of a log, most of which are no frames and give nothing. -/
def decode? (tag line : String) : Option (Except Error Frame) :=
  decodeChars? tag.toList line.toList

end BleCapture.Line
