import Tween.Exchange.Value
import Tween.State

/-! States in exchange. What is left out is neutral. -/

namespace Tween.State

def ofJson? (json : Json) : Option (State Float) := do
  let record ← json.record?
    ["time", "position", "scale", "rotation", "color", "opacity", "flip_h", "flip_v", "additive"]
  let neutral := neutral 0.0
  let number (value : Float) (name : String) := Json.withDefault value Json.float? name record
  let vector (value : Vec2 Float) (name : String) := Json.withDefault value Vec2.ofJson? name record
  let flag (value : Bool) (name : String) := Json.withDefault value Json.bool? name record
  return {
    time := ← number neutral.time "time"
    position := ← vector neutral.position "position"
    scale := ← vector neutral.scale "scale"
    rotation := ← number neutral.rotation "rotation"
    color := ← Json.withDefault neutral.color Color.ofJson? "color" record
    opacity := ← number neutral.opacity "opacity"
    flipH := ← flag neutral.flipH "flip_h"
    flipV := ← flag neutral.flipV "flip_v"
    additive := ← flag neutral.additive "additive" }

def toJson (s : State Float) : Json :=
  .ofFields [("time", .ofFloat s.time), ("position", s.position.toJson), ("scale", s.scale.toJson),
    ("rotation", .ofFloat s.rotation), ("color", s.color.toJson), ("opacity", .ofFloat s.opacity),
    ("flip_h", .bool s.flipH), ("flip_v", .bool s.flipV), ("additive", .bool s.additive)]

/-- A list of states. -/
def listOfJson? (json : Json) : Option (List (State Float)) := json.array? >>= List.mapM ofJson?

def listToJson (states : List (State Float)) : Json := .array (states.map toJson)

end Tween.State
