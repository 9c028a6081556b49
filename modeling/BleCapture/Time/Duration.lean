import BleCapture.Text.Blank
import BleCapture.Text.Number
import BleCapture.Text.Search
import BleCapture.Time.Timestamp

/-!
# Durations as text

A decimal number below 2⁶⁴ and a unit: milliseconds, hours, minutes, or
seconds, which is also what no unit means.
-/

namespace BleCapture.Duration

inductive ParseError where
  | empty
  | milliseconds (number : String)
  | hours (number : String)
  | minutes (number : String)
  | seconds (text : String)
  deriving DecidableEq, Repr

def ParseError.message : ParseError → String
  | .empty => "empty duration string"
  | .milliseconds number => "invalid milliseconds: " ++ number
  | .hours number => "invalid hours: " ++ number
  | .minutes number => "invalid minutes: " ++ number
  | .seconds text => "invalid duration: " ++ text

/-- A number as it may stand before a unit, with blanks around it. -/
def readCount? (s : List Char) : Option Nat :=
  Text.readNumber? 10 UInt64.size (Text.trim s)

def parseChars (s : List Char) : Except ParseError Duration :=
  let src := Text.trim s
  if src.isEmpty then .error .empty
  else
    match Text.dropTail? ['m', 's'] src, Text.dropTail? ['h'] src, Text.dropTail? ['m'] src with
    | some number, _, _ =>
      match readCount? number with
      | some n => .ok (ofMillis n)
      | none => .error (.milliseconds (String.ofList number))
    | none, some number, _ =>
      match readCount? number with
      | some n => .ok (ofSeconds (n * 3600))
      | none => .error (.hours (String.ofList number))
    | none, none, some number =>
      match readCount? number with
      | some n => .ok (ofSeconds (n * 60))
      | none => .error (.minutes (String.ofList number))
    | none, none, none =>
      match readCount? ((Text.dropTail? ['s'] src).getD src) with
      | some n => .ok (ofSeconds n)
      | none => .error (.seconds (String.ofList src))

/-- Reads a duration such as `3s`, `1m`, `500ms`, `2h` or `10`. -/
def parse (s : String) : Except ParseError Duration :=
  parseChars s.toList

end BleCapture.Duration
