import Tween.Scalar

/-! Vectors of two, three and four components. The order in which a dot product adds up its
terms is part of the definition, because doubles round after every addition. -/

namespace Tween

structure Vec2 (α : Type) where
  x : α
  y : α
  deriving BEq

structure Vec3 (α : Type) where
  x : α
  y : α
  z : α
  deriving BEq

structure Vec4 (α : Type) where
  x : α
  y : α
  z : α
  w : α
  deriving BEq

variable {α : Type} [Scalar α]

namespace Vec2

instance : Add (Vec2 α) := ⟨fun a b => ⟨a.x + b.x, a.y + b.y⟩⟩
instance : Sub (Vec2 α) := ⟨fun a b => ⟨a.x - b.x, a.y - b.y⟩⟩

def zero : Vec2 α := ⟨0.0, 0.0⟩

def map (f : α → α) (v : Vec2 α) : Vec2 α := ⟨f v.x, f v.y⟩

/-- The product of each component with its counterpart. -/
def stretch (a b : Vec2 α) : Vec2 α := ⟨a.x * b.x, a.y * b.y⟩

def dot (a b : Vec2 α) : α := a.x * b.x + a.y * b.y

def norm (v : Vec2 α) : α := Scalar.sqrt (v.dot v)

def isFinite (v : Vec2 α) : Bool := Scalar.isFinite v.x && Scalar.isFinite v.y

/-- The vector turned by an angle whose cosine and sine are given. -/
def turnedBy (v : Vec2 α) (cos sin : α) : Vec2 α :=
  ⟨cos * v.x + (-sin) * v.y, sin * v.x + cos * v.y⟩

end Vec2

namespace Vec3

instance : Sub (Vec3 α) := ⟨fun a b => ⟨a.x - b.x, a.y - b.y, a.z - b.z⟩⟩

def zero : Vec3 α := ⟨0.0, 0.0, 0.0⟩

def map (f : α → α) (v : Vec3 α) : Vec3 α := ⟨f v.x, f v.y, f v.z⟩

def scale (v : Vec3 α) (factor : α) : Vec3 α := v.map (· * factor)

def dot (a b : Vec3 α) : α := a.x * b.x + a.y * b.y + a.z * b.z

def norm (v : Vec3 α) : α := Scalar.sqrt (v.dot v)

end Vec3

namespace Vec4

instance : Add (Vec4 α) := ⟨fun a b => ⟨a.x + b.x, a.y + b.y, a.z + b.z, a.w + b.w⟩⟩
instance : Sub (Vec4 α) := ⟨fun a b => ⟨a.x - b.x, a.y - b.y, a.z - b.z, a.w - b.w⟩⟩
instance : Neg (Vec4 α) := ⟨fun v => ⟨-v.x, -v.y, -v.z, -v.w⟩⟩

def map (f : α → α) (v : Vec4 α) : Vec4 α := ⟨f v.x, f v.y, f v.z, f v.w⟩

def scale (v : Vec4 α) (factor : α) : Vec4 α := v.map (· * factor)

/-- The first product meets the third and the second the fourth before the two sums are added. -/
def dot (a b : Vec4 α) : α := (a.x * b.x + a.z * b.z) + (a.y * b.y + a.w * b.w)

def norm (v : Vec4 α) : α := Scalar.sqrt (v.dot v)

/-- The vector of length one in the same direction. -/
def normalized (v : Vec4 α) : Vec4 α := v.map (· / v.norm)

end Vec4
end Tween
