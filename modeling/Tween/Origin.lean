import Tween.Vector

/-! The point of a bitmap that an object's position speaks of. -/

namespace Tween

inductive Origin where
  | topLeft | topCentre | topRight
  | centreLeft | centre | centreRight
  | bottomLeft | bottomCentre | bottomRight
  deriving DecidableEq

namespace Origin

/-- Row by row from the top left. -/
def all : List Origin :=
  [topLeft, topCentre, topRight, centreLeft, centre, centreRight, bottomLeft, bottomCentre, bottomRight]

def name : Origin → String
  | topLeft => "TopLeft"
  | topCentre => "TopCentre"
  | topRight => "TopRight"
  | centreLeft => "CentreLeft"
  | centre => "Centre"
  | centreRight => "CentreRight"
  | bottomLeft => "BottomLeft"
  | bottomCentre => "BottomCentre"
  | bottomRight => "BottomRight"

def ofName? (name : String) : Option Origin := all.find? (·.name == name)

variable {α : Type} [Scalar α]

/-- The anchor as a fraction of the bitmap's size. -/
def offset : Origin → Vec2 α
  | topLeft => ⟨0.0, 0.0⟩
  | topCentre => ⟨0.5, 0.0⟩
  | topRight => ⟨1.0, 0.0⟩
  | centreLeft => ⟨0.0, 0.5⟩
  | centre => ⟨0.5, 0.5⟩
  | centreRight => ⟨1.0, 0.5⟩
  | bottomLeft => ⟨0.0, 1.0⟩
  | bottomCentre => ⟨0.5, 1.0⟩
  | bottomRight => ⟨1.0, 1.0⟩

end Origin
end Tween
