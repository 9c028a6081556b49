import BleCapture.Text.Blank
import BleCapture.Text.Search

/-!
# Named fields of a transport line

A field is written `name=[value]`, with blanks allowed around the equals sign
and just inside the brackets. Other text may stand before, between and after
fields; the first occurrence of the name that an equals sign follows is the
field.
-/

namespace BleCapture.Line

inductive FieldName where
  | packetType
  | length
  | data
  deriving DecidableEq, Repr

def FieldName.text : FieldName → String
  | .packetType => "pkt_type"
  | .length => "len"
  | .data => "data"

theorem FieldName.text_length_pos (n : FieldName) : 0 < n.text.toList.length := by
  cases n <;> decide

/-- The value up to the first closing bracket, if an opening one comes first. -/
def bracketed? (s : List Char) : Option (List Char) :=
  match s with
  | '[' :: rest => if ']' ∈ rest then some (Text.trim (rest.takeWhile (· ≠ ']'))) else none
  | _ => none

/-- The trimmed value of a field, or nothing when the field is missing or has
no brackets. -/
def field? (name : FieldName) (s : List Char) : Option (List Char) :=
  match _h : Text.after? name.text.toList s with
  | none => none
  | some rest =>
    match Text.trimStart rest with
    | '=' :: value => bracketed? (Text.trimStart value)
    | _ => field? name rest
termination_by s.length
decreasing_by
  have := Text.after?_length _h
  have := name.text_length_pos
  omega

end BleCapture.Line
