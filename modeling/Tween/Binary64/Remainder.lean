import Tween.Binary64.Parts

/-! The remainder of two doubles, computed without rounding. -/

namespace Tween.Binary64

-- Powers of natural numbers are those of the core library, whatever else is loaded.
attribute [local instance (high)] instPowNat

/-- What is left of `x` after taking away whole multiples of `y`, with the sign of `x`. It is
undefined for an infinite `x` and for a zero `y`; an infinite `y` leaves `x` alone. -/
def remainder (x y : Float) : Float :=
  if x.isNaN || y.isNaN || x.isInf || y == 0.0 then 0.0 / 0.0
  else if y.isInf then x
  else
    let dividend := magnitude x
    let divisor := magnitude y
    let exponent := min dividend.exponent divisor.exponent
    let scaled (parts : Magnitude) := parts.mantissa * 2 ^ (parts.exponent - exponent).toNat
    compose (isNegative x) (scaled dividend % scaled divisor) exponent

end Tween.Binary64
