import Tween.Binary64.Parts

/-! Rounding a double to an integral double. -/

namespace Tween.Binary64

-- Powers of natural numbers are those of the core library, whatever else is loaded.
attribute [local instance (high)] instPowNat

/-- The integer nearest to `mantissa / 2 ^ places`; a half goes up. -/
def nearestInteger (mantissa places : Nat) : Nat := (2 * mantissa + 2 ^ places) / 2 ^ (places + 1)

/-- The nearest integral double; a half goes away from zero. The sign stays, also on a zero, and
so does what is not finite. -/
def round (x : Float) : Float :=
  let parts := magnitude x
  if !x.isFinite || 0 ≤ parts.exponent then x
  else compose (isNegative x) (nearestInteger parts.mantissa (-parts.exponent).toNat) 0

end Tween.Binary64
