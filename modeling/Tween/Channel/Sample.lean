import Tween.Channel
import Tween.Problem

/-! The value of a channel at any time. -/

namespace Tween.Channel
variable {α V : Type} [Scalar α]

/-- The value between two neighbours. The easing of the second shapes the progress. -/
def between (blend : Blend α V) (before after : Keyframe α V) (time : α) : V :=
  if after.time == before.time then after.value
  else
    let progress := (time - before.time) / (after.time - before.time)
    blend before.value after.value (after.ease.apply progress)

/-- Before the first keyframe its value holds, and after the last one that one's. -/
def sampleWith (c : Channel α V) (blend : Blend α V) (time : α) : V :=
  match c.keyframes with
  | [] => c.rest
  | [only] => only.value
  | first :: _ =>
    let index := slot c.keyframes time false
    if index = 0 then first.value
    else match c.keyframes[index - 1]?, c.keyframes[index]? with
      | some before, some after => between blend before after time
      | some last, none => last.value
      | none, _ => c.rest

def sample (c : Channel α V) (time : α) : Except (Problem α) V :=
  match c.blend with
  | some blend => .ok (c.sampleWith blend time)
  | none => .error .missingBlend

/-- A keyframe with the value that the channel has there anyway. -/
def insertSampled (c : Channel α V) (time : α) (before : Bool) : Except (Problem α) (Channel α V) := do
  let value ← c.sample time
  return c.insert { time, value } before

end Tween.Channel
