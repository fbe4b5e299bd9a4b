import Tween.Color

/-! Commands of the playback format: a change of one property over a span of time. -/

namespace Tween

/-- From one value to another, or a flag that is set for the span. -/
inductive Change (α : Type) where
  | move (start stop : Vec2 α)
  | moveX (start stop : α)
  | moveY (start stop : α)
  | scale (start stop : α)
  | scaleVec (start stop : Vec2 α)
  | rotate (start stop : α)
  | color (start stop : Color α)
  | fade (start stop : α)
  | flipH
  | flipV
  | additive
  deriving BEq

structure Command (α : Type) where
  startTime : α
  endTime : α
  change : Change α
  deriving BEq

end Tween
