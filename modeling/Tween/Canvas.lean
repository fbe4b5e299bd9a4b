import Tween.Vector

/-! The area in which an object can be seen, and boxes around objects. -/

namespace Tween

structure Canvas (α : Type) where
  left : α
  top : α
  right : α
  bottom : α
  deriving BEq

/-- A box with sides parallel to the axes. -/
structure Box (α : Type) where
  lower : Vec2 α
  upper : Vec2 α

variable {α : Type} [Scalar α]

/-- The box around a point and more points. A point with an undefined coordinate takes the place
of that bound. -/
def Box.around (point : Vec2 α) (more : List (Vec2 α)) : Box α :=
  more.foldl (fun box p =>
    { lower := ⟨if box.lower.x ≤ p.x then box.lower.x else p.x, if box.lower.y ≤ p.y then box.lower.y else p.y⟩
      upper := ⟨if p.x ≤ box.upper.x then box.upper.x else p.x, if p.y ≤ box.upper.y then box.upper.y else p.y⟩ })
    ⟨point, point⟩

namespace Canvas

/-- The playing field of a wide screen. -/
def wide : Canvas α := ⟨-107.0, 0.0, 747.0, 480.0⟩

/-- Whether the box and the canvas have a point in common, borders included. -/
def touches (canvas : Canvas α) (box : Box α) : Bool :=
  canvas.left ≤ box.upper.x && box.lower.x ≤ canvas.right
    && canvas.top ≤ box.upper.y && box.lower.y ≤ canvas.bottom

end Canvas
end Tween
