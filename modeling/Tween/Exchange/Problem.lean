import Tween.Exchange.Value
import Tween.Problem

/-! Problems in exchange. -/

namespace Tween.Problem

def ofJson? (json : Json) : Option (Problem Float) := do
  let text (name : String) (record : List (String × Json)) := Json.required Json.string? name record
  match ← json.choice? with
  | ("Validation", data) =>
    let record ← data.record? ["field", "time", "reason"]
    return .validation (← text "field" record) (← Json.required Json.float? "time" record) (← text "reason" record)
  | ("Configuration", data) => return .configuration (← text "reason" (← data.record? ["reason"]))
  | ("Serialization", data) => return .serialization (← text "reason" (← data.record? ["reason"]))
  | _ => none

def toJson : Problem Float → Json
  | validation field time reason =>
    .ofFields [("Validation",
      .ofFields [("field", .str field), ("time", .ofFloat time), ("reason", .str reason)])]
  | configuration reason => .ofFields [("Configuration", .ofFields [("reason", .str reason)])]
  | serialization reason => .ofFields [("Serialization", .ofFields [("reason", .str reason)])]

end Tween.Problem
