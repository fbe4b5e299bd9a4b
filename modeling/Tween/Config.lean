import Tween.Canvas
import Tween.Color
import Tween.Config.Rounding

/-! How finely an animation is compiled. Visibility and the commands round with the same
settings, so that what is judged is what is written. -/

namespace Tween

/-- The animated values that have settings of their own. -/
inductive Aspect where
  | position | scale | rotation | color | opacity
  deriving DecidableEq

namespace Aspect

def all : List Aspect := [position, scale, rotation, color, opacity]

def name : Aspect → String
  | position => "position"
  | scale => "scale"
  | rotation => "rotation"
  | color => "color"
  | opacity => "opacity"

end Aspect

/-- One setting for every aspect. -/
structure PerAspect (β : Type) where
  position : β
  scale : β
  rotation : β
  color : β
  opacity : β
  deriving BEq

def PerAspect.get {β : Type} (settings : PerAspect β) : Aspect → β
  | .position => settings.position
  | .scale => settings.scale
  | .rotation => settings.rotation
  | .color => settings.color
  | .opacity => settings.opacity

/-- Tolerances are in pixels for position and for scale times bitmap size, in degrees for
rotation, in byte scale for colour and in percent for opacity. `places` counts decimal places;
those of colour apply in byte scale. -/
structure Config (α : Type) where
  tolerance : PerAspect α
  places : PerAspect UInt32
  canvas : Canvas α
  deriving BEq

namespace Config
variable {α : Type} [Scalar α]

/-- Settings under which most content needs no tuning. -/
def standard : Config α where
  tolerance := ⟨1.0, 0.5, 0.25, 2.0, 1.0⟩
  places := ⟨1, 3, 5, 0, 1⟩
  canvas := .wide

def roundPosition (config : Config α) (position : Vec2 α) : Vec2 α :=
  position.map (roundPlaces · config.places.position)

def roundScale (config : Config α) (scale : Vec2 α) : Vec2 α := scale.map (roundPlaces · config.places.scale)

def roundRotation (config : Config α) (rotation : α) : α := roundPlaces rotation config.places.rotation

def roundColor (config : Config α) (color : Color α) : Color α :=
  .ofByteScale (color.toByteScale.map (roundPlaces · config.places.color))

def roundOpacity (config : Config α) (opacity : α) : α := roundPlaces opacity config.places.opacity

/-! Settings that cannot be used. -/

/-- More places than a double can mean. -/
def maxPlaces : UInt32 := 15

inductive Fault (α : Type) where
  /-- A tolerance that is negative or not finite. -/
  | tolerance (aspect : Aspect) (value : α)
  | places (aspect : Aspect) (value : UInt32)
  /-- A canvas whose left is not left of its right, or whose top is not above its bottom. -/
  | inverted (canvas : Canvas α)

/-- The first fault: tolerances before places before the canvas. -/
def fault? (config : Config α) : Option (Fault α) :=
  let coarse (aspect : Aspect) : Option (Fault α) :=
    let value := config.tolerance.get aspect
    if !Scalar.isFinite value || value < 0.0 then some (.tolerance aspect value) else none
  let long (aspect : Aspect) : Option (Fault α) :=
    let value := config.places.get aspect
    if maxPlaces < value then some (.places aspect value) else none
  let canvas := config.canvas
  (Aspect.all.findSome? coarse).or <| (Aspect.all.findSome? long).or <|
    if canvas.left ≤ canvas.right ∧ canvas.top ≤ canvas.bottom then none else some (.inverted canvas)

end Config
end Tween
