import Tween.Vector

/-! The distance of a point to the line through two others. In the plane it comes from the area
of the triangle, in space from the part of the offset that is perpendicular to the line. When
the two points coincide there is no line, and the distance to them is meant. -/

namespace Tween.Distance
variable {α : Type} [Scalar α]

def toLine2 (start middle stop : Vec2 α) : α :=
  let base := stop - start
  let offset := middle - start
  let length := base.norm
  if length == 0.0 then offset.norm
  else Scalar.abs (base.x * offset.y - base.y * offset.x) / length

def toLine3 (start middle stop : Vec3 α) : α :=
  let base := stop - start
  let offset := middle - start
  let square := base.dot base
  if square == 0.0 then offset.norm
  else (offset - base.scale (offset.dot base / square)).norm

def toLine4 (start middle stop : Vec4 α) : α :=
  let base := stop - start
  let offset := middle - start
  let square := base.dot base
  if square == 0.0 then offset.norm
  else (offset - base.scale (offset.dot base / square)).norm

end Tween.Distance
