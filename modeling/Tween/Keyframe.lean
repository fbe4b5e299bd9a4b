import Tween.Easing
import Tween.Binary64.Stored

/-! A value at a time, with the easing of the way that leads there. -/

namespace Tween

/-- `hold` marks a keyframe that only keeps the value before it up to its time. -/
structure Keyframe (α V : Type) where
  time : α
  value : V
  ease : Easing := .linear
  hold : Bool := false

namespace Keyframe
variable {α V : Type}

def atTime (k : Keyframe α V) (time : α) : Keyframe α V := { k with time }

def withValue (k : Keyframe α V) (value : V) : Keyframe α V := { k with value }

/-- Easing and hold marker do not take part. -/
instance [BEq α] [BEq V] : BEq (Keyframe α V) := ⟨fun a b => a.time == b.time && a.value == b.value⟩

/-- Order by time alone. The order is on stored times, which tells apart what is equal or
undefined as a number. -/
def compareTime (a b : Keyframe Binary64.Stored V) : Ordering := a.time.compareTotal b.time

end Keyframe
end Tween
