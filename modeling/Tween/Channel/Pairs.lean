import Tween.Channel

/-! The curve of a channel as pairs of keyframes, each a move from one value to another over a
span of time. A playback format knows nothing else. Transitions between equal values need no
pair, and keyframes that share a time make one pair without duration. -/

namespace Tween

/-- Move from the value of `start` to the value of `stop`. -/
structure Pair (α V : Type) where
  start : Keyframe α V
  stop : Keyframe α V

/-- How a channel is to be played: `rest` is the value that the target shows without any pair. Every value is edited before it
is compared or used. The pairs reach back to `startTime` and on to `endTime` where these are
given. A `loopable` animation states its first transition even if it is flat. -/
structure Playback (α V : Type) where
  rest : V
  edit : V → V := id
  startTime : Option α := none
  endTime : Option α := none
  loopable : Bool := false

namespace Channel
variable {α V : Type} [Scalar α] [BEq V]

/-- The pairs of the transitions behind `previous`. A step stays open, from the keyframe where it
began, until a transition of another kind follows; the pair of a hold marker's step is left out
when that transition has a pair of its own, which states the same value. `force` asks for the
next transition even if it is flat. -/
def transitions (force : Bool) (step : Option (Keyframe α V)) (previous : Keyframe α V) :
    List (Keyframe α V) → List (Pair α V)
  | [] => step.toList.map (⟨·, previous⟩)
  | next :: rest =>
    let flat := previous.value == next.value
    if !flat && previous.time == next.time then
      transitions force (some (step.getD previous)) next rest
    else
      let stated := !flat || force
      let closed := (step.filter fun s => !(s.hold && stated)).toList.map (⟨·, previous⟩)
      let moved := if stated then [⟨previous, next⟩] else []
      closed ++ moved ++ transitions (force && !stated) none next rest

/-- Covers the time from `startTime` to the first pair. A loop holds the value all the way. -/
def leadIn (playback : Playback α V) (pairs : List (Pair α V)) : List (Pair α V) :=
  match pairs, playback.startTime with
  | first :: rest, some startTime =>
    if startTime < first.start.time then
      let initial := first.start.atTime startTime
      ⟨initial, if playback.loopable then first.start else initial⟩ :: first :: rest
    else pairs
  | _, _ => pairs

/-- The one pair of a channel without transitions, unless its value is shown anyway. -/
def constant (playback : Playback α V) (first last : Keyframe α V) : List (Pair α V) :=
  let held := first.atTime (playback.startTime.getD first.time)
  if held.value != playback.rest then
    let windowed := playback.startTime.isSome || playback.endTime.isSome
    [⟨held, if windowed then held.atTime (playback.endTime.getD last.time) else held⟩]
  else []

/-- Holds the last value up to `endTime`. -/
def leadOut (playback : Playback α V) (pairs : List (Pair α V)) : List (Pair α V) :=
  match pairs.getLast?, playback.endTime with
  | some last, some endTime =>
    if last.stop.time < endTime then pairs ++ [⟨last.stop, last.stop.atTime endTime⟩] else pairs
  | _, _ => pairs

def pairs (c : Channel α V) (playback : Playback α V) : List (Pair α V) :=
  match c.keyframes.map fun k => k.withValue (playback.edit k.value) with
  | [] => []
  | first :: rest =>
    let moving := leadIn playback (transitions playback.loopable none first rest)
    let stated :=
      if moving.isEmpty then constant playback first ((first :: rest).getLast (List.cons_ne_nil _ _))
      else moving
    leadOut playback stated

end Channel
end Tween
