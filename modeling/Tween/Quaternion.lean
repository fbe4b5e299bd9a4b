import Tween.Vector

/-! Rotations of space as unit quaternions. -/

namespace Tween

/-- The components `i`, `j`, `k` and the real part `w`, in this order. The length is meant to be
one; `ofVector` sees to that. -/
structure Quaternion (α : Type) where
  parts : Vec4 α

namespace Quaternion
variable {α : Type} [Scalar α]

def ofVector (v : Vec4 α) : Quaternion α := ⟨v.normalized⟩

def identity : Quaternion α := ⟨⟨0.0, 0.0, 0.0, 1.0⟩⟩

/-- A quaternion and its negative are the same rotation. -/
instance : BEq (Quaternion α) := ⟨fun a b => a.parts == b.parts || a.parts == -b.parts⟩

/-- Straight blend, brought back to length one. -/
def blendStraight (a b : Quaternion α) (t : α) : Quaternion α :=
  ofVector (a.parts.scale (1.0 - t) + b.parts.scale t)

/-- Blend along the shorter great arc at constant speed. Opposite rotations have no such arc, so
they blend straight. -/
def blendArc (a b : Quaternion α) (t : α) : Quaternion α :=
  let near := if a.parts.dot b.parts < 0.0 then -b.parts else b.parts
  let cosine := a.parts.dot near
  if 1.0 ≤ cosine then a
  else
    let angle := Scalar.acos cosine
    let sine := Scalar.sqrt (1.0 - cosine * cosine)
    if Scalar.abs sine ≤ 0.000000001 then blendStraight a b t
    else
      let first := Scalar.sin ((1.0 - t) * angle) / sine
      let second := Scalar.sin (t * angle) / sine
      ⟨a.parts.scale first + near.scale second⟩

end Quaternion
end Tween
