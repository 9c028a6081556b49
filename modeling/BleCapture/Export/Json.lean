import BleCapture.Decimal.Shortest
import BleCapture.Text.Number

/-!
# JSON text

Values, and their text with one item a line, indented by two blanks. Members
keep their order. Strings escape the quote, the backslash and control
characters; all else stands for itself.
-/

namespace BleCapture

inductive Json where
  | null
  | int (n : Int)
  | real (x : Float)
  | str (s : String)
  | arr (items : List Json)
  | obj (members : List (String × Json))

namespace Json

def ofOption (f : α → Json) : Option α → Json
  | some a => f a
  | none => .null

def nat (n : Nat) : Json := .int n

def strings (l : List String) : Json := .arr (l.map .str)

def escapeChar (c : Char) : List Char :=
  let n := c.toNat
  if n = 0x22 then ['\\', '"']
  else if n = 0x5C then ['\\', '\\']
  else if n = 0x08 then ['\\', 'b']
  else if n = 0x09 then ['\\', 't']
  else if n = 0x0A then ['\\', 'n']
  else if n = 0x0C then ['\\', 'f']
  else if n = 0x0D then ['\\', 'r']
  else if n < 0x20 then ['\\', 'u'] ++ Text.lowerHex 4 n
  else [c]

def quote (s : List Char) : List Char :=
  '"' :: s.flatMap escapeChar ++ ['"']

/-- Digits without trailing zeros, and the power of ten that makes up for them. -/
def withoutTrailingZeros (d : Decimal.Scientific) : List Char × Int :=
  let digits := Text.decimal d.digits
  let zeros := (digits.reverse.takeWhile (· = '0')).length
  (digits.take (digits.length - zeros), d.exponent + zeros)

/-- A nonzero magnitude: positional with a point from 10⁻⁵ to below 10¹⁶, with
an exponent otherwise. Whole numbers keep one place. -/
def magnitude (d : Decimal.Scientific) : List Char :=
  let (digits, exponent) := withoutTrailingZeros d
  let point : Int := digits.length + exponent
  if 0 ≤ exponent ∧ point ≤ 16 then
    digits ++ List.replicate exponent.toNat '0' ++ ['.', '0']
  else if 0 < point ∧ point ≤ 16 then
    digits.take point.toNat ++ '.' :: digits.drop point.toNat
  else if -5 < point ∧ point ≤ 0 then
    ['0', '.'] ++ List.replicate (-point).toNat '0' ++ digits
  else
    digits.take 1 ++ (if digits.length = 1 then [] else '.' :: digits.drop 1) ++
      'e' :: Text.signed (point - 1)

/-- The shortest text that reads back. Infinities and NaN have none and are
written as null. -/
def number (x : Float) : List Char :=
  match Decimal.Binary64.ofFloat? x with
  | none => "null".toList
  | some parts =>
    (if parts.negative then ['-'] else []) ++
      if parts.significand = 0 then ['0', '.', '0'] else magnitude parts.shortest

def newline (depth : Nat) : List Char := '\n' :: List.replicate (2 * depth) ' '

mutual

/-- The text of a value that stands at a depth of nesting, in front of `rest`. -/
def render (depth : Nat) (rest : List Char) : Json → List Char
  | .null => "null".toList ++ rest
  | .int n => Text.signed n ++ rest
  | .real x => number x ++ rest
  | .str s => quote s.toList ++ rest
  | .arr [] => '[' :: ']' :: rest
  | .arr (item :: items) =>
    let close := newline depth ++ ']' :: rest
    '[' :: (newline (depth + 1) ++
      render (depth + 1) (renderItems (depth + 1) close items) item)
  | .obj [] => '\x7b' :: '\x7d' :: rest
  | .obj ((key, value) :: members) =>
    let close := newline depth ++ '\x7d' :: rest
    '\x7b' :: (newline (depth + 1) ++ quote key.toList ++ ':' :: ' ' ::
      render (depth + 1) (renderMembers (depth + 1) close members) value)

/-- Further items, each after a comma and on a line of its own, in front of
`rest`. -/
def renderItems (depth : Nat) (rest : List Char) : List Json → List Char
  | [] => rest
  | item :: items =>
    ',' :: (newline depth ++ render depth (renderItems depth rest items) item)

/-- Further members, each after a comma and on a line of its own, in front of
`rest`. -/
def renderMembers (depth : Nat) (rest : List Char) : List (String × Json) → List Char
  | [] => rest
  | (key, value) :: members =>
    ',' :: (newline depth ++ quote key.toList ++ ':' :: ' ' ::
      render depth (renderMembers depth rest members) value)

end

def text (j : Json) : List Char := render 0 [] j

end Json

end BleCapture
