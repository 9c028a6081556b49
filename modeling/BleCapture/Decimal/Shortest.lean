import BleCapture.Decimal.Binary64
import BleCapture.Text.Number

/-!
# Shortest decimal

The fewest digits that read back as the same double, and of those the nearest
to it. A candidate reads back when it lies in the interval of reals that round
to the double; the ends belong to it when the significand is even.
-/

namespace BleCapture.Decimal

/-- The number `digits · 10 ^ exponent`. -/
structure Scientific where
  digits : Nat
  exponent : Int
  deriving DecidableEq, Repr

namespace Binary64

/-- Four times the ends of the rounding interval, in units of the last binary
place. The gap below a power of two is half as wide. -/
def lowerEnd (x : Binary64) : Nat :=
  if x.significand = Nat.pow 2 52 ∧ -1074 < x.exponent then 4 * x.significand - 1
  else 4 * x.significand - 2

def upperEnd (x : Binary64) : Nat :=
  4 * x.significand + 2

/-- Scales a quarter unit of the last binary place against `10 ^ k`: `a`
quarters equal `d · 10 ^ k` exactly when `a * quarterScale = d * tenScale`. -/
def quarterScale (x : Binary64) (k : Int) : Nat :=
  Nat.pow 2 (x.exponent - 2).toNat * Nat.pow 10 (-k).toNat

def tenScale (x : Binary64) (k : Int) : Nat :=
  Nat.pow 2 (2 - x.exponent).toNat * Nat.pow 10 k.toNat

/-- Whether `d · 10 ^ k` reads back as `x`. -/
def readsBack (x : Binary64) (d : Nat) (k : Int) : Bool :=
  let v := d * x.tenScale k
  let lo := x.lowerEnd * x.quarterScale k
  let hi := x.upperEnd * x.quarterScale k
  if x.significand % 2 = 0 then lo ≤ v && v ≤ hi else lo < v && v < hi

/-- The decimal exponent of the leading digit of a nonzero number. -/
def leadingPlace (x : Binary64) : Int :=
  let shift := (-x.exponent).toNat
  let whole := x.numerator * Nat.pow 10 shift / x.denominator
  ((Text.decimal whole).length : Int) - 1 - shift

/-- The better of the two neighbours with last place `10 ^ k` that read back. -/
def onGrid (x : Binary64) (k : Int) : Option Scientific :=
  let value := 4 * x.significand * x.quarterScale k
  let unit := x.tenScale k
  let below := value / unit
  let rest := value % unit
  match x.readsBack below k, x.readsBack (below + 1) k with
  | true, true =>
    if 2 * rest < unit ∨ (2 * rest = unit ∧ below % 2 = 0) then some ⟨below, k⟩
    else some ⟨below + 1, k⟩
  | true, false => some ⟨below, k⟩
  | false, true => some ⟨below + 1, k⟩
  | false, false => none

/-- Searches the grids of one to seventeen digits, the coarsest first. -/
def shortest (x : Binary64) : Scientific :=
  let place := x.leadingPlace
  ((List.range 17).findSome? fun (i : Nat) => x.onGrid (place - i)).getD ⟨0, 0⟩

end Binary64

end BleCapture.Decimal
