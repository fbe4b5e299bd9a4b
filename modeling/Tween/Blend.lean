import Tween.Angle
import Tween.Color
import Tween.Quaternion

/-! Blends of two values at an eased progress. -/

namespace Tween

/-- From the first value at progress zero towards the second at progress one. -/
abbrev Blend (α V : Type) := V → V → α → V

namespace Blend
variable {α : Type} [Scalar α]

def scalar : Blend α α := fun a b t => a + (b - a) * t

/-- Along the shorter arc. The result may leave the range of a single turn. -/
def angle : Blend α α := fun a b t => a + Angle.shortWay a b * t

def vec2 : Blend α (Vec2 α) := fun a b t => ⟨scalar a.x b.x t, scalar a.y b.y t⟩

def vec3 : Blend α (Vec3 α) := fun a b t => ⟨scalar a.x b.x t, scalar a.y b.y t, scalar a.z b.z t⟩

def color : Blend α (Color α) := fun a b t =>
  ⟨scalar a.red b.red t, scalar a.green b.green t, scalar a.blue b.blue t⟩

def quaternion : Blend α (Quaternion α) := Quaternion.blendArc

/-! Flags do not mix; these choose. -/

def first : Blend α Bool := fun a _ _ => a
def second : Blend α Bool := fun _ b _ => b
def either : Blend α Bool := fun a b _ => a || b
def both : Blend α Bool := fun a b _ => a && b

end Blend
end Tween
