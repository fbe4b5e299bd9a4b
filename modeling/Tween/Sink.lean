import Tween.Command
import Tween.Origin

/-! What receives commands: a sprite that knows its bitmap and how long its commands last. -/

namespace Tween

/-- The middle of the canvas, where a sprite stands before its first move. -/
def canvasCenter {α : Type} [Scalar α] : Vec2 α := ⟨320.0, 240.0⟩

/-- `startTime` and `endTime` are the earliest and the latest time of any command so far. -/
class Sink (σ : Type) (α : outParam Type) [Scalar α] where
  /-- The key under which the size of the bitmap is looked up. -/
  texturePath : σ → String
  origin : σ → Origin
  initialPosition : σ → Vec2 α := fun _ => canvasCenter
  push : σ → Command α → σ
  startTime : σ → Option α
  endTime : σ → Option α

/-- Keeps every command in the order of arrival. -/
structure Script (α : Type) where
  texturePath : String
  origin : Origin
  initialPosition : Vec2 α
  commands : List (Command α) := []
  deriving BEq

namespace Script
variable {α : Type} [Scalar α]

def push (script : Script α) (command : Command α) : Script α :=
  { script with commands := script.commands ++ [command] }

/-- An empty script has no first time. -/
def startTime (script : Script α) : Option α :=
  match script.commands.map (·.startTime) with
  | [] => none
  | first :: rest => some (rest.foldl Scalar.least first)

def endTime (script : Script α) : Option α :=
  match script.commands.map (·.endTime) with
  | [] => none
  | first :: rest => some (rest.foldl Scalar.greatest first)

instance : Sink (Script α) α where
  texturePath := (·.texturePath)
  origin := (·.origin)
  initialPosition := (·.initialPosition)
  push := push
  startTime := startTime
  endTime := endTime

end Script
end Tween
