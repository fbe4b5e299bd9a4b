import Tween.Scalar

/-! Angles in radians, taken up to whole turns. -/

namespace Tween.Angle
variable {α : Type} [Scalar α]

/-- The way from `a` to `b` along the shorter arc. A half turn counts as positive. -/
def shortWay (a b : α) : α :=
  let rest := Scalar.remainder (b - a) Scalar.turn
  if Scalar.pi < rest then rest - Scalar.turn
  else if rest ≤ -Scalar.pi then rest + Scalar.turn
  else rest

/-- The angle shifted by whole turns to where it is closest to the previous one. -/
def closestTo (previous : Option α) (angle : α) : α :=
  match previous with
  | some previous => previous + shortWay previous angle
  | none => angle

end Tween.Angle
