import Tween.Binary64.Scalar
import Tween.Canvas
import Tween.Color
import Tween.Easing
import Tween.Json.Record
import Tween.Origin

/-! Vectors, colours, areas and names in exchange. -/

namespace Tween

namespace Vec2

/-- Exactly two numbers. -/
def ofJson? : Json → Option (Vec2 Float)
  | .array [x, y] => return ⟨← x.float?, ← y.float?⟩
  | _ => none

def toJson (v : Vec2 Float) : Json := .array [.ofFloat v.x, .ofFloat v.y]

end Vec2

namespace Color

def ofJson? (json : Json) : Option (Color Float) := do
  let record ← json.record? ["r", "g", "b"]
  let channel (name : String) := Json.required Json.float? name record
  return ⟨← channel "r", ← channel "g", ← channel "b"⟩

def toJson (c : Color Float) : Json :=
  .ofFields [("r", .ofFloat c.red), ("g", .ofFloat c.green), ("b", .ofFloat c.blue)]

end Color

namespace Canvas

def ofJson? (json : Json) : Option (Canvas Float) := do
  let record ← json.record? ["left", "top", "right", "bottom"]
  let side (name : String) := Json.required Json.float? name record
  return ⟨← side "left", ← side "top", ← side "right", ← side "bottom"⟩

def toJson (c : Canvas Float) : Json :=
  .ofFields [("left", .ofFloat c.left), ("top", .ofFloat c.top), ("right", .ofFloat c.right),
    ("bottom", .ofFloat c.bottom)]

end Canvas

def Origin.ofJson? (json : Json) : Option Origin := json.name? >>= Origin.ofName?

def Origin.toJson (origin : Origin) : Json := .str origin.name

def Easing.ofJson? (json : Json) : Option Easing := json.name? >>= Easing.ofName?

def Easing.toJson (easing : Easing) : Json := .str easing.name

end Tween
