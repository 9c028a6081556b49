import BleCapture.Decimal.Binary64
import BleCapture.Decimal.Rounding
import BleCapture.Text.Number

/-!
# Fixed places

A double with a fixed number of decimal places, rounded from its exact value
with halves to even. Zero keeps its sign, and so does a number that rounds to
zero.
-/

namespace BleCapture.Decimal

/-- The digits of `n / 10 ^ places`, with a point before the last `places`. -/
def placed (places n : Nat) : List Char :=
  if places = 0 then Text.decimal n
  else
    let digits := Text.padded (places + 1) (Text.decimal n)
    let whole := digits.length - places
    digits.take whole ++ '.' :: digits.drop whole

/-- Magnitude in units of the last place. -/
def Binary64.scaled (tie : Tie) (places : Nat) (x : Binary64) : Nat :=
  roundDiv tie (x.numerator * Nat.pow 10 places) x.denominator

def Binary64.fixed (places : Nat) (x : Binary64) : List Char :=
  (if x.negative then ['-'] else []) ++ placed places (x.scaled .toEven places)

def fixed (places : Nat) (x : Float) : String :=
  match Binary64.ofFloat? x with
  | some parts => String.ofList (parts.fixed places)
  | none => if x < 0 then "-inf" else if x > 0 then "inf" else "NaN"

/-- The nearest whole double, halves away from zero. Zero keeps its sign. -/
def nearestWhole (x : Float) : Float :=
  match Binary64.ofFloat? x with
  | none => x
  | some parts =>
    if 0 ≤ parts.exponent then x
    else
      let magnitude := (parts.scaled .up 0).toUInt64.toFloat
      if parts.negative then -magnitude else magnitude

end BleCapture.Decimal
