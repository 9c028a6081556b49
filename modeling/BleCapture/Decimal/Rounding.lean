/-!
# Rounding a quotient

To the nearest whole number, with the rule for exact halves as a parameter.
-/

namespace BleCapture.Decimal

/-- Which neighbour an exact half goes to. -/
inductive Tie where
  | toEven
  | up
  deriving DecidableEq, Repr

/-- The whole number nearest to `num / den`. -/
def roundDiv (tie : Tie) (num den : Nat) : Nat :=
  let q := num / den
  let twice := 2 * (num % den)
  if twice < den then q
  else if den < twice then q + 1
  else match tie with
    | .toEven => q + q % 2
    | .up => q + 1

end BleCapture.Decimal
