import Tween.Channel.Simplify
import Tween.Compiler.Tracks
import Tween.Visibility

/-! From states in time order to the tracks of all visible spans. -/

namespace Tween

/-- What is known after some of the states: the tracks of the visible span that is being captured
and those of the spans before it. -/
structure Capture (α : Type) where
  span : Tracks α
  tracks : Tracks α
  previous : Option (State α)
  inSpan : Bool
  begun : Bool

namespace Capture
variable {α : Type} [Scalar α]

def initial : Capture α := ⟨.empty, .empty, none, false, false⟩

/-- Scale is compared in pixels of the bitmap, rotation in degrees, colour in byte scale and
opacity in percent. Flags lose nothing but repetitions. -/
def simplified (config : Config α) (bitmapSize : Vec2 α) (tracks : Tracks α) : Tracks α where
  position := tracks.position.simplify2 config.tolerance.position id
  scale := tracks.scale.simplify2 config.tolerance.scale (·.stretch bitmapSize)
  rotation := tracks.rotation.simplify1 config.tolerance.rotation Scalar.toDegrees
  color := tracks.color.simplify3 config.tolerance.color Color.toByteScale
  opacity := tracks.opacity.simplify1 config.tolerance.opacity (· * 100.0)
  flipH := tracks.flipH.simplify 0.0 fun _ _ _ => 0.0
  flipV := tracks.flipV.simplify 0.0 fun _ _ _ => 0.0
  additive := tracks.additive.simplify 0.0 fun _ _ _ => 0.0

/-- A span comes from nothing and goes to nothing unless its own opacity does. When the span
before ends where this one starts, it has already gone there. -/
def faded (config : Config α) (precedingEnd : Option α) (opacity : Channel α α) : Channel α α :=
  match opacity.startTime, opacity.endTime with
  | some start, some stop =>
    let adjoins := precedingEnd == some start
    let entered :=
      if 0.0 < config.roundOpacity opacity.startValue ∧ adjoins = false then
        opacity.insert { time := start, value := 0.0 } true
      else opacity
    if 0.0 < config.roundOpacity entered.endValue then entered.insert { time := stop, value := 0.0 } false
    else entered
  | _, _ => opacity

/-- Closes the open span. The values before it are held up to where it starts. -/
def closeSpan (config : Config α) (bitmapSize : Vec2 α) (capture : Capture α) : Capture α :=
  match capture.span.position.startTime with
  | none => capture
  | some start =>
    let span := simplified config bitmapSize capture.span
    let span := { span with opacity := faded config capture.tracks.opacity.endTime span.opacity }
    { capture with span := .empty, tracks := (capture.tracks.hold start).receive span }

/-- One more state. The state right before the first visible one is recorded too, and the one
right after a visible span, so that the ways in and out start and end at their values. -/
def step (config : Config α) (bitmapSize : Vec2 α) (timeOffset : α) (visible : State α → Bool)
    (capture : Capture α) (state : State α) : Capture α :=
  let record (capture : Capture α) (state : State α) : Capture α :=
    { capture with span := capture.span.record state (state.time + timeOffset) }
  let now := visible state
  let capture :=
    if now && !capture.inSpan && !capture.begun then
      { (capture.previous.elim capture (record capture)) with begun := true }
    else capture
  let capture := if now || capture.inSpan then record capture state else capture
  let capture := if !now && capture.inSpan then closeSpan config bitmapSize capture else capture
  { capture with previous := some state, inSpan := now }

def run (config : Config α) (bitmapSize : Vec2 α) (timeOffset : α) (visible : State α → Bool)
    (states : List (State α)) : Capture α :=
  let capture := states.foldl (step config bitmapSize timeOffset visible) initial
  if capture.inSpan then closeSpan config bitmapSize capture else capture

end Capture
end Tween
