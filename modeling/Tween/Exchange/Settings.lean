import Tween.Exchange.Value
import Tween.Compiler.Emission
import Tween.Report

/-! Configurations and options in exchange. What is left out has its standard value. -/

namespace Tween

namespace Config

def toleranceName (aspect : Aspect) : String := aspect.name ++ "_tolerance"

def placesName (aspect : Aspect) : String := aspect.name ++ "_decimals"

/-- Reads without asking whether the settings can be used. -/
def ofJson? (json : Json) : Option (Config Float) := do
  let record ← json.record? (Aspect.all.map toleranceName ++ Aspect.all.map placesName ++ ["canvas"])
  let standard : Config Float := .standard
  let tolerance (aspect : Aspect) :=
    Json.withDefault (standard.tolerance.get aspect) Json.float? (toleranceName aspect) record
  let places (aspect : Aspect) :=
    Json.withDefault (standard.places.get aspect) Json.word? (placesName aspect) record
  return {
    tolerance := ⟨← tolerance .position, ← tolerance .scale, ← tolerance .rotation, ← tolerance .color,
      ← tolerance .opacity⟩
    places := ⟨← places .position, ← places .scale, ← places .rotation, ← places .color, ← places .opacity⟩
    canvas := ← Json.withDefault standard.canvas Canvas.ofJson? "canvas" record }

def toJson (config : Config Float) : Json :=
  .ofFields (Aspect.all.map (fun aspect => (toleranceName aspect, .ofFloat (config.tolerance.get aspect)))
    ++ Aspect.all.map (fun aspect => (placesName aspect, .ofNat (config.places.get aspect).toNat))
    ++ [("canvas", config.canvas.toJson)])

end Config

namespace PassOptions

def ofJson? (json : Json) : Option (PassOptions Float) := do
  let record ← json.record? ["start_time", "end_time", "time_offset", "loopable"]
  let bound (name : String) := Json.withDefault none (Json.optional? Json.float?) name record
  return {
    startTime := ← bound "start_time"
    endTime := ← bound "end_time"
    timeOffset := ← Json.withDefault 0.0 Json.float? "time_offset" record
    loopable := ← Json.withDefault false Json.bool? "loopable" record }

def toJson (options : PassOptions Float) : Json :=
  let bound (time : Option Float) : Json := time.elim .null .ofFloat
  .ofFields [("start_time", bound options.startTime), ("end_time", bound options.endTime),
    ("time_offset", .ofFloat options.timeOffset), ("loopable", .bool options.loopable)]

end PassOptions
end Tween
