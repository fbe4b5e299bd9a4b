import Tween.Channel
import Tween.Sink
import Tween.State

/-! The eight channels of one object. -/

namespace Tween

structure Tracks (α : Type) where
  position : Channel α (Vec2 α)
  scale : Channel α (Vec2 α)
  rotation : Channel α α
  color : Channel α (Color α)
  opacity : Channel α α
  flipH : Channel α Bool
  flipV : Channel α Bool
  additive : Channel α Bool

namespace Tracks
variable {α : Type} [Scalar α]

/-- A flag keeps the value of the last keyframe, which is what the first of two flags says. -/
def empty : Tracks α where
  position := .withBlend Blend.vec2 canvasCenter
  scale := .withBlend Blend.vec2 ⟨1.0, 1.0⟩
  rotation := .withBlend Blend.angle 0.0
  color := .withBlend Blend.color .white
  opacity := .withBlend Blend.scalar 1.0
  flipH := .withBlend Blend.first false
  flipV := .withBlend Blend.first false
  additive := .withBlend Blend.first false

def record (tracks : Tracks α) (state : State α) (time : α) : Tracks α where
  position := tracks.position.add time state.position
  scale := tracks.scale.add time state.scale
  rotation := tracks.rotation.add time state.rotation
  color := tracks.color.add time state.color
  opacity := tracks.opacity.add time state.opacity
  flipH := tracks.flipH.add time state.flipH
  flipV := tracks.flipV.add time state.flipV
  additive := tracks.additive.add time state.additive

/-- Keeps every end value up to `time`. -/
def hold (tracks : Tracks α) (time : α) : Tracks α where
  position := (tracks.position.hold? time).getD tracks.position
  scale := (tracks.scale.hold? time).getD tracks.scale
  rotation := (tracks.rotation.hold? time).getD tracks.rotation
  color := (tracks.color.hold? time).getD tracks.color
  opacity := (tracks.opacity.hold? time).getD tracks.opacity
  flipH := (tracks.flipH.hold? time).getD tracks.flipH
  flipV := (tracks.flipV.hold? time).getD tracks.flipV
  additive := (tracks.additive.hold? time).getD tracks.additive

def receive (target source : Tracks α) : Tracks α where
  position := target.position.receive source.position
  scale := target.scale.receive source.scale
  rotation := target.rotation.receive source.rotation
  color := target.color.receive source.color
  opacity := target.opacity.receive source.opacity
  flipH := target.flipH.receive source.flipH
  flipV := target.flipV.receive source.flipV
  additive := target.additive.receive source.additive

def clear (tracks : Tracks α) : Tracks α where
  position := tracks.position.clear
  scale := tracks.scale.clear
  rotation := tracks.rotation.clear
  color := tracks.color.clear
  opacity := tracks.opacity.clear
  flipH := tracks.flipH.clear
  flipV := tracks.flipV.clear
  additive := tracks.additive.clear

end Tracks
end Tween
