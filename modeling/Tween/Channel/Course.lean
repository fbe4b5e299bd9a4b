import Tween.Channel.Sample

/-! The curve of a channel without a search: at any time it is the last keyframe that has been
reached and the first one that has not which decide. -/

namespace Tween.Channel
variable {α V : Type} [Scalar α]

/-- No keyframe is earlier than one stored before it. -/
def Ordered (keyframes : List (Keyframe α V)) : Prop := keyframes.Pairwise (·.time ≤ ·.time)

def reached? (keyframes : List (Keyframe α V)) (time : α) : Option (Keyframe α V) :=
  keyframes.reverse.find? (·.time ≤ time)

def ahead? (keyframes : List (Keyframe α V)) (time : α) : Option (Keyframe α V) :=
  keyframes.find? (time < ·.time)

/-- `link` gives the values on the way from one keyframe to the next. -/
def course (link : Keyframe α V → Keyframe α V → α → V) (rest : V) (keyframes : List (Keyframe α V))
    (time : α) : V :=
  match reached? keyframes time, ahead? keyframes time with
  | some before, some after => link before after time
  | some last, none => last.value
  | none, some first => first.value
  | none, none => rest

/-- The way between two keyframes at a constant pace, whatever their easing. -/
def steady (blend : Blend α V) (before after : Keyframe α V) (time : α) : V :=
  blend before.value after.value ((time - before.time) / (after.time - before.time))

end Tween.Channel
