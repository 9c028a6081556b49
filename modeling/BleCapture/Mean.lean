/-!
# Numbers of statistics

Means and rates are computed in a type that is a parameter: reports use
doubles, and exact fractions show what is computed.
-/

namespace BleCapture

/-- Numbers in which a mean or a rate can be kept. -/
class Mean (α : Type) extends Add α, Sub α, Div α where
  ofSample : Int8 → α
  ofCount : Nat → α

instance : Mean Float where
  ofSample sample := Float.ofInt sample.toInt
  ofCount n := n.toUInt64.toFloat

end BleCapture
