import Tween.Exchange.Value
import Tween.Keyframe

/-! Keyframes in exchange, given the form of their values. -/

namespace Tween.Keyframe
variable {V : Type}

def ofJson? (value : Json → Option V) (json : Json) : Option (Keyframe Float V) := do
  let record ← json.record? ["time", "value", "ease", "until"]
  return {
    time := ← Json.required Json.float? "time" record
    value := ← Json.required value "value" record
    ease := ← Json.withDefault .linear Easing.ofJson? "ease" record
    hold := ← Json.withDefault false Json.bool? "until" record }

/-- The hold marker is only written when it is set. -/
def toJson (value : V → Json) (k : Keyframe Float V) : Json :=
  let hold := if k.hold then [("until", .bool true)] else []
  .ofFields ([("time", .ofFloat k.time), ("value", value k.value), ("ease", k.ease.toJson)] ++ hold)

end Tween.Keyframe
