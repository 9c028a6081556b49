import BleCapture.Text.Number
import BleCapture.Text.Utf8

/-!
# Hex strings

Two digits a byte. Writing uses small letters; reading takes either case and
names the first byte of the text that is no digit. An odd number of digits is
found before any bad digit.
-/

namespace BleCapture.Text.Hex

def digit (n : Nat) : Char :=
  (Nat.digitChar n)

def encodeByte (b : UInt8) : List Char :=
  [digit (b.toNat / 16), digit (b.toNat % 16)]

def encode (bytes : List UInt8) : List Char :=
  bytes.flatMap encodeByte

inductive Error where
  | oddLength
  | notDigit (byte : UInt8) (position : Nat)
  deriving DecidableEq, Repr

def byteDigit (position : Nat) (b : UInt8) : Except Error UInt8 :=
  match digitValue? 16 (Char.ofNat b.toNat) with
  | some v => .ok (UInt8.ofNat v)
  | none => .error (.notDigit b position)

/-- Digit pairs from `position` on. A last single digit is left unread: the
caller has made sure that there is none. -/
def decodePairs (position : Nat) : List UInt8 → Except Error (List UInt8)
  | hi :: lo :: rest => do
    let h ← byteDigit position hi
    let l ← byteDigit (position + 1) lo
    let bytes ← decodePairs (position + 2) rest
    return (h * 16 + l) :: bytes
  | _ => .ok []

/-- Reads the UTF-8 bytes of a text as hex digits. -/
def decode (s : List Char) : Except Error (List UInt8) :=
  let bytes := Utf8.encode s
  if bytes.length % 2 = 1 then .error .oddLength else decodePairs 0 bytes

/-- Characters of the first 256 that are shown as they are: printing ones
other than the quote and the backslash, without the soft hyphen. -/
def isPlain (n : Nat) : Bool :=
  (0x20 ≤ n && n < 0x7F && n != 0x27 && n != 0x5C) || (0xA0 < n && n != 0xAD)

/-- A byte as a quoted Latin-1 character, escaped where it does not print. -/
def quotedByte (b : UInt8) : List Char :=
  let n := b.toNat
  let body :=
    if n = 0 then ['\\', '0']
    else if n = 0x09 then ['\\', 't']
    else if n = 0x0A then ['\\', 'n']
    else if n = 0x0D then ['\\', 'r']
    else if n = 0x27 then ['\\', '\'']
    else if n = 0x5C then ['\\', '\\']
    else if isPlain n then [Char.ofNat n]
    else ['\\', 'u', '\x7b'] ++ Nat.toDigits 16 n ++ ['\x7d']
  ['\''] ++ body ++ ['\'']

def Error.message : Error → String
  | .oddLength => "Odd number of digits"
  | .notDigit byte position =>
    "Invalid character " ++ String.ofList (quotedByte byte) ++ " at position " ++
      String.ofList (decimal position)

end BleCapture.Text.Hex
