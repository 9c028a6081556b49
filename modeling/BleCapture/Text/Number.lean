/-!
# Numbers as text

Decimal and hexadecimal numerals. A numeral that is read may carry one plus
sign and any number of leading zeros; a numeral that is written never does,
unless a width asks for zeros. Numbers are read up to a bound that the caller
knows, so a numeral of any length is judged at once.
-/

namespace BleCapture.Text

def decimal (n : Nat) : List Char :=
  Nat.toDigits 10 n

def signed (i : Int) : List Char :=
  if i < 0 then '-' :: decimal i.natAbs else decimal i.natAbs

/-- Zeros on the left up to `width` characters; longer texts stay whole. -/
def padded (width : Nat) (s : List Char) : List Char :=
  List.replicate (width - s.length) '0' ++ s

def lowerHex (width n : Nat) : List Char :=
  padded width (Nat.toDigits 16 n)

def upperHex (width n : Nat) : List Char :=
  (lowerHex width n).map Char.toUpper

/-- The `0x` form in which unnamed codes are shown, in capitals. -/
def hexCode (width n : Nat) : String :=
  "0x" ++ String.ofList (upperHex width n)

/-- The value of one digit of either case in a base of at most sixteen. -/
def digitValue? (base : Nat) (c : Char) : Option Nat :=
  let n := c.toNat
  let v :=
    if 0x30 ≤ n ∧ n ≤ 0x39 then n - 0x30
    else if 0x61 ≤ n ∧ n ≤ 0x66 then n - 0x61 + 10
    else if 0x41 ≤ n ∧ n ≤ 0x46 then n - 0x41 + 10
    else base
  if v < base then some v else none

/-- The value of a run of digits, continuing from `acc`, as long as it stays
below `bound`. More digits never make a value smaller, so nothing is read past
the digit that reaches the bound. -/
def readDigits? (base bound acc : Nat) : List Char → Option Nat
  | [] => some acc
  | c :: s =>
    (digitValue? base c).bind fun v =>
      if acc * base + v < bound then readDigits? base bound (acc * base + v) s else none

/-- Reads a number below `bound`: one or more digits after an optional plus
sign. -/
def readNumber? (base bound : Nat) (s : List Char) : Option Nat :=
  let digits := match s with
    | '+' :: rest => rest
    | _ => s
  if digits.isEmpty then none else readDigits? base bound 0 digits

/-- Reads one or more decimal digits after an optional sign, as a number whose
absolute value is below `bound`. -/
def readSigned? (bound : Nat) (s : List Char) : Option Int :=
  match s with
  | '-' :: rest =>
    if rest.isEmpty then none else (readDigits? 10 bound 0 rest).map fun n => -(n : Int)
  | _ => (readNumber? 10 bound s).map Int.ofNat

end BleCapture.Text
