import Tween.Scalar

/-! Rounding to decimal places. -/

namespace Tween
variable {α : Type} [Scalar α]

/-- The power of ten that a count of places stands for. Counts from two to the thirty-first on
stand for negative powers, as a signed word reads them. -/
def placesExponent (places : UInt32) : Int := (places.toNat : Int).bmod UInt32.size

/-- Rounds to `places` decimal places, a half going away from zero. -/
def roundPlaces (x : α) (places : UInt32) : α :=
  let factor : α := Scalar.powerOfTen (placesExponent places)
  Scalar.round (x * factor) / factor

end Tween
