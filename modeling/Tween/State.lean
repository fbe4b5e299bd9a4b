import Tween.Color
import Tween.Problem

/-! What an object looks like at one time. -/

namespace Tween

/-- Rotation is in radians and opacity between zero and one. -/
structure State (α : Type) where
  time : α
  position : Vec2 α
  scale : Vec2 α
  rotation : α
  color : Color α
  opacity : α
  flipH : Bool
  flipV : Bool
  additive : Bool
  deriving BEq

namespace State
variable {α : Type} [Scalar α]

/-- Unit scale, white and opaque. -/
def neutral (time : α) : State α where
  time
  position := .zero
  scale := ⟨1.0, 1.0⟩
  rotation := 0.0
  color := .white
  opacity := 1.0
  flipH := false
  flipV := false
  additive := false

/-- Values that would poison distances are refused. The first bad field is reported, time first. -/
def checked (s : State α) : Except (Problem α) (State α) :=
  let fields : List (String × Bool) :=
    [("position", s.position.isFinite), ("scale", s.scale.isFinite), ("rotation", Scalar.isFinite s.rotation),
      ("color", s.color.isFinite), ("opacity", Scalar.isFinite s.opacity)]
  if !Scalar.isFinite s.time then .error (.validation "time" s.time "time must be finite")
  else match fields.find? (!·.2) with
    | some (field, _) => .error (.validation field s.time "value must be finite")
    | none => .ok s

end State
end Tween
