import Tween.Config
import Tween.Origin
import Tween.State

/-! Whether anything of an object can be seen, judged on the values that commands will carry. -/

namespace Tween.State
variable {α : Type} [Scalar α]

/-- The corners of the object on the canvas, in the order of the bitmap's rows. -/
def corners (size anchor position : Vec2 α) (cos sin : α) : Vec2 α × List (Vec2 α) :=
  let place (corner : Vec2 α) : Vec2 α := (corner - anchor).turnedBy cos sin + position
  (place ⟨0.0, 0.0⟩, [place ⟨size.x, 0.0⟩, place ⟨0.0, size.y⟩, place size])

/-- The box around the object once its values are rounded. -/
def footprint (s : State α) (bitmapSize : Vec2 α) (origin : Origin) (config : Config α) : Box α :=
  let size := bitmapSize.stretch (config.roundScale s.scale)
  let rotation := config.roundRotation s.rotation
  let corners := corners size (origin.offset.stretch size) (config.roundPosition s.position)
    (Scalar.cos rotation) (Scalar.sin rotation)
  Box.around corners.1 corners.2

/-- Adding black light shows nothing; neither does an object without opacity or without extent. -/
def isVisible (s : State α) (bitmapSize : Vec2 α) (origin : Origin) (config : Config α) : Bool :=
  let scale := config.roundScale s.scale
  if s.additive && config.roundColor s.color == Color.black then false
  else if config.roundOpacity s.opacity ≤ 0.0 then false
  else if scale.x ≤ 0.0 ∨ scale.y ≤ 0.0 then false
  else config.canvas.touches (s.footprint bitmapSize origin config)

end Tween.State
