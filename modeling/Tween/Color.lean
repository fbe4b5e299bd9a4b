import Tween.Vector

/-! Colours with channels between zero and one, and their byte scale from 0 to 255, in which
they are rounded and compared. -/

namespace Tween

structure Color (α : Type) where
  red : α
  green : α
  blue : α
  deriving BEq

namespace Color
variable {α : Type} [Scalar α]

def white : Color α := ⟨1.0, 1.0, 1.0⟩

def black : Color α := ⟨0.0, 0.0, 0.0⟩

def toByteScale (c : Color α) : Vec3 α := ⟨c.red * 255.0, c.green * 255.0, c.blue * 255.0⟩

def ofByteScale (v : Vec3 α) : Color α := ⟨v.x / 255.0, v.y / 255.0, v.z / 255.0⟩

def isFinite (c : Color α) : Bool :=
  Scalar.isFinite c.red && Scalar.isFinite c.green && Scalar.isFinite c.blue

end Color
end Tween
