/-!
# Finite doubles as exact numbers

A finite double is plus or minus a whole significand times a power of two.
Everything that is printed about one is computed from these three parts.
-/

namespace BleCapture.Decimal

/-- The number `±significand · 2 ^ exponent`; zero has both signs. -/
structure Binary64 where
  negative : Bool
  significand : Nat
  exponent : Int
  deriving DecidableEq, Repr

namespace Binary64

/-- Decodes the bits of a double; infinities and NaN have no parts. -/
def ofBits? (bits : UInt64) : Option Binary64 :=
  let n : Nat := bits.toNat
  let fraction : Nat := n % Nat.pow 2 52
  let field : Nat := n / Nat.pow 2 52 % Nat.pow 2 11
  let negative := n / Nat.pow 2 63 == 1
  if field = Nat.pow 2 11 - 1 then none
  else if field = 0 then some ⟨negative, fraction, -1074⟩
  else some ⟨negative, Nat.pow 2 52 + fraction, (field : Int) - 1075⟩

def ofFloat? (x : Float) : Option Binary64 :=
  ofBits? x.toBits

/-- Numerator of the magnitude, over `denominator`. -/
def numerator (x : Binary64) : Nat :=
  x.significand * Nat.pow 2 x.exponent.toNat

def denominator (x : Binary64) : Nat :=
  Nat.pow 2 (-x.exponent).toNat

end Binary64

end BleCapture.Decimal
