import Tween.Channel.Pairs
import Tween.Compiler.Tracks
import Tween.Config

/-! From the tracks of an object to commands on a sink. -/

namespace Tween

/-- The commands cover the object from `startTime` to `endTime` where these are given.
`timeOffset` is added to the times of states. -/
structure PassOptions (α : Type) where
  startTime : Option α
  endTime : Option α
  timeOffset : α
  loopable : Bool
  deriving BEq

namespace PassOptions
variable {α V : Type} [Scalar α]

def standard : PassOptions α := ⟨none, none, 0.0, false⟩

def playback (options : PassOptions α) (rest : V) (edit : V → V) : Playback α V where
  rest
  edit
  startTime := options.startTime
  endTime := options.endTime
  loopable := options.loopable

end PassOptions

/-- All that emission needs besides the sink. -/
structure Emission (α : Type) where
  config : Config α
  tracks : Tracks α
  bitmapSize : Vec2 α
  options : PassOptions α

namespace Emission
variable {α V σ : Type} [Scalar α]

def command (change : V → V → Change α) (pair : Pair α V) : Command α :=
  ⟨pair.start.time, pair.stop.time, change pair.start.value pair.stop.value⟩

/-- The commands for one channel, each pair a change from value to value. -/
def commands [BEq V] (e : Emission α) (channel : Channel α V) (rest : V) (edit : V → V)
    (change : V → V → Change α) : List (Command α) :=
  (channel.pairs (e.options.playback rest edit)).map (command change)

/-- Moves along one axis are enough when the other coordinate never leaves its initial value. -/
def moves (e : Emission α) (initial : Vec2 α) : List (Command α) :=
  let rounded := e.config.roundPosition
  let positions := e.tracks.position
  let keepsX := positions.keyframes.all fun k => (rounded k.value).x == initial.x
  let keepsY := positions.keyframes.all fun k => (rounded k.value).y == initial.y
  if keepsY && !keepsX then
    e.commands positions initial (fun p => ⟨(rounded p).x, initial.y⟩) fun a b => .moveX a.x b.x
  else if keepsX && !keepsY then
    e.commands positions initial (fun p => ⟨initial.x, (rounded p).y⟩) fun a b => .moveY a.y b.y
  else e.commands positions initial rounded .move

/-- Both axes are scaled apart only when they ever differ by more than a pixel. -/
def scales (e : Emission α) : List (Command α) :=
  let rounded := e.config.roundScale
  let pixels := Scalar.greatest e.bitmapSize.x e.bitmapSize.y
  let apart := e.tracks.scale.keyframes.any fun k =>
    let s := rounded k.value
    1.0 < Scalar.abs (s.x - s.y) * pixels
  if apart then e.commands e.tracks.scale ⟨1.0, 1.0⟩ rounded .scaleVec
  else
    e.commands e.tracks.scale ⟨1.0, 1.0⟩ (fun s => let x := (rounded s).x; ⟨x, x⟩) fun a b => .scale a.x b.x

def rotations (e : Emission α) : List (Command α) :=
  e.commands e.tracks.rotation 0.0 e.config.roundRotation .rotate

def colors (e : Emission α) : List (Command α) :=
  e.commands e.tracks.color .white e.config.roundColor .color

def fades (e : Emission α) : List (Pair α α) :=
  e.tracks.opacity.pairs (e.options.playback 1.0 e.config.roundOpacity)

/-- A fade shows nothing when it is constant and lies outside the commands that the sink already
has, or when it drops to zero at the very end of them. -/
def showsNothing (sinkStart sinkEnd : Option α) (fade : Pair α α) : Bool :=
  match sinkStart, sinkEnd with
  | some sinkStart, some sinkEnd =>
    let outside := fade.stop.time < sinkStart || sinkEnd < fade.start.time
    (outside && fade.start.value == fade.stop.value)
      || (fade.start.time == fade.stop.time && fade.start.time == sinkEnd && fade.stop.value == 0.0)
  | _, _ => false

/-- The spans in which a flag is set, given where the open one began. A span still open at the
last keyframe closes there. -/
def flagSpansFrom (opened : Option α) (latest : α) : List (Keyframe α Bool) → List (α × α)
  | [] => opened.toList.map (·, latest)
  | k :: rest =>
    match k.value, opened with
    | true, none => flagSpansFrom (some k.time) k.time rest
    | false, some start => (start, k.time) :: flagSpansFrom none k.time rest
    | _, _ => flagSpansFrom opened k.time rest

def flagSpans : List (Keyframe α Bool) → List (α × α)
  | [] => []
  | k :: rest => flagSpansFrom none k.time (k :: rest)

def flags (channel : Channel α Bool) (change : Change α) : List (Command α) :=
  (flagSpans channel.keyframes).map fun (start, stop) => ⟨start, stop, change⟩

variable [Sink σ α]

def pushAll (sink : σ) (commands : List (Command α)) : σ := commands.foldl Sink.push sink

/-- A fade that `redundant` calls so, given the earliest and the latest time on the sink at that
moment, is left out. -/
def pushFades (redundant : Option α → Option α → Pair α α → Bool) (sink : σ) (fades : List (Pair α α)) : σ :=
  fades.foldl (fun sink fade =>
    if redundant (Sink.startTime sink) (Sink.endTime sink) fade then sink
    else Sink.push sink (command .fade fade)) sink

/-- Emission with a choice of which fades are redundant. -/
def runWith (redundant : Option α → Option α → Pair α α → Bool) (e : Emission α) (sink : σ) : σ :=
  let sink := pushAll sink (e.moves (Sink.initialPosition sink))
  let sink := pushAll sink e.scales
  let sink := pushAll sink e.rotations
  let sink := pushAll sink e.colors
  let sink := pushFades redundant sink e.fades
  let sink := pushAll sink (flags e.tracks.flipH .flipH)
  let sink := pushAll sink (flags e.tracks.flipV .flipV)
  pushAll sink (flags e.tracks.additive .additive)

def run (e : Emission α) (sink : σ) : σ := e.runWith showsNothing sink

end Emission
end Tween
