import Tween.Exchange.Value
import Tween.Problem
import Tween.Sink

/-! Commands and scripts in exchange. -/

namespace Tween

namespace Change

def name {α : Type} : Change α → String
  | move .. => "Move"
  | moveX .. => "MoveX"
  | moveY .. => "MoveY"
  | scale .. => "Scale"
  | scaleVec .. => "ScaleVec"
  | rotate .. => "Rotate"
  | color .. => "Color"
  | fade .. => "Fade"
  | flipH => "FlipH"
  | flipV => "FlipV"
  | additive => "Additive"

/-- The values at both ends. A flag has none. -/
def ends : Change Float → List Json
  | move a b => [a.toJson, b.toJson]
  | moveX a b => [.ofFloat a, .ofFloat b]
  | moveY a b => [.ofFloat a, .ofFloat b]
  | scale a b => [.ofFloat a, .ofFloat b]
  | scaleVec a b => [a.toJson, b.toJson]
  | rotate a b => [.ofFloat a, .ofFloat b]
  | color a b => [a.toJson, b.toJson]
  | fade a b => [.ofFloat a, .ofFloat b]
  | flipH => []
  | flipV => []
  | additive => []

end Change

namespace Command

def timeNames : List String := ["start_time", "end_time"]

def endNames : List String := ["start", "end"]

/-- The command of a kind from its record. -/
def ofRecord? (kind : String) (data : Json) : Option (Command Float) :=
  let command (change : Change Float) (record : List (String × Json)) : Option (Command Float) :=
    return ⟨← Json.required Json.float? "start_time" record, ← Json.required Json.float? "end_time" record, change⟩
  let between {β : Type} (read : Json → Option β) (change : β → β → Change Float) : Option (Command Float) := do
    let record ← data.record? (timeNames ++ endNames)
    command (change (← Json.required read "start" record) (← Json.required read "end" record)) record
  let flag (change : Change Float) : Option (Command Float) := data.record? timeNames >>= command change
  match kind with
  | "Move" => between Vec2.ofJson? .move
  | "MoveX" => between Json.float? .moveX
  | "MoveY" => between Json.float? .moveY
  | "Scale" => between Json.float? .scale
  | "ScaleVec" => between Vec2.ofJson? .scaleVec
  | "Rotate" => between Json.float? .rotate
  | "Color" => between Color.ofJson? .color
  | "Fade" => between Json.float? .fade
  | "FlipH" => flag .flipH
  | "FlipV" => flag .flipV
  | "Additive" => flag .additive
  | _ => none

/-- The kind and the rest of a tagged record: the kind is the one field `type`, wherever it
stands, or the first item. -/
def tagged? : Json → Option (String × Json)
  | .array (kind :: data) => return (← kind.string?, .array data)
  | .object fields =>
    match fields.partition fun field => field.1 == some "type" with
    | ([(_, kind)], data) => return (← kind.string?, .object data)
    | _ => none
  | _ => none

/-- The kind may come last, so all is kept until then, unknown fields too; `depth` is how many
levels of brackets are allowed. -/
def ofJson? (depth : Nat) (json : Json) : Option (Command Float) := do
  guard (json.isKeepable depth)
  let (kind, data) ← tagged? json
  ofRecord? kind data

def toJson (c : Command Float) : Json :=
  .ofFields ([("type", .str c.change.name), ("start_time", .ofFloat c.startTime), ("end_time", .ofFloat c.endTime)]
    ++ endNames.zip c.change.ends)

/-- The levels of brackets that a text may have. -/
def maxDepth : Nat := 127

end Command

namespace Script

/-- Each command stands in the list of the script, two levels down. -/
def ofJson? (json : Json) : Option (Script Float) := do
  let record ← json.record? ["texture_path", "origin", "initial_position", "commands"]
  let commands (json : Json) : Option (List (Command Float)) :=
    json.array? >>= List.mapM (Command.ofJson? (Command.maxDepth - 2))
  return {
    texturePath := ← Json.required Json.string? "texture_path" record
    origin := ← Json.required Origin.ofJson? "origin" record
    initialPosition := ← Json.required Vec2.ofJson? "initial_position" record
    commands := ← Json.required commands "commands" record }

def toJson (script : Script Float) : Json :=
  .ofFields [("texture_path", .str script.texturePath), ("origin", script.origin.toJson),
    ("initial_position", script.initialPosition.toJson), ("commands", .array (script.commands.map Command.toJson))]

end Script
end Tween
