import Tween.Channel.Course
import Tween.Channel.Pairs
import Tween.Sink
import Tween.State

/-! What a player shows. Of the pairs of one property the last one that has begun decides, and its
end value stays until another one begins. -/

namespace Tween
variable {α V : Type} [Scalar α]

/-- The value at a time at which the pair has begun. -/
def Pair.during (blend : Blend α V) (pair : Pair α V) (time : α) : V :=
  if time < pair.stop.time then Channel.steady blend pair.start pair.stop time else pair.stop.value

/-- The first pair shows its start value in advance. Without any pair `rest` shows. -/
def replay (blend : Blend α V) (rest : V) (pairs : List (Pair α V)) (time : α) : V :=
  match pairs.reverse.find? (·.start.time ≤ time), pairs.head? with
  | some current, _ => current.during blend time
  | none, some first => first.start.value
  | none, none => rest

namespace Change

/-- From where to where a change moves. An axis that it leaves alone stays at its initial place. -/
def positions? (initial : Vec2 α) : Change α → Option (Vec2 α × Vec2 α)
  | .move start stop => some (start, stop)
  | .moveX start stop => some (⟨start, initial.y⟩, ⟨stop, initial.y⟩)
  | .moveY start stop => some (⟨initial.x, start⟩, ⟨initial.x, stop⟩)
  | _ => none

def scales? : Change α → Option (Vec2 α × Vec2 α)
  | .scale start stop => some (⟨start, start⟩, ⟨stop, stop⟩)
  | .scaleVec start stop => some (start, stop)
  | _ => none

def rotations? : Change α → Option (α × α)
  | .rotate start stop => some (start, stop)
  | _ => none

def colors? : Change α → Option (Color α × Color α)
  | .color start stop => some (start, stop)
  | _ => none

def opacities? : Change α → Option (α × α)
  | .fade start stop => some (start, stop)
  | _ => none

end Change

def Command.pair (command : Command α) (values : V × V) : Pair α V where
  start := { time := command.startTime, value := values.1 }
  stop := { time := command.endTime, value := values.2 }

namespace Script

/-- The pairs of the property that `values?` reads. -/
def pairs (script : Script α) (values? : Change α → Option (V × V)) : List (Pair α V) :=
  script.commands.filterMap fun command => (values? command.change).map command.pair

/-- Whether a flag is set, which it is from the start of a command until right before its end. -/
def shows (script : Script α) (flag : Change α) (time : α) : Bool :=
  script.commands.any fun command =>
    command.change == flag && command.startTime ≤ time && time < command.endTime

/-- What the script shows at a time. -/
def stateAt (script : Script α) (time : α) : State α where
  time
  position :=
    replay Blend.vec2 script.initialPosition (script.pairs (Change.positions? script.initialPosition)) time
  scale := replay Blend.vec2 ⟨1.0, 1.0⟩ (script.pairs Change.scales?) time
  rotation := replay Blend.scalar 0.0 (script.pairs Change.rotations?) time
  color := replay Blend.color .white (script.pairs Change.colors?) time
  opacity := replay Blend.scalar 1.0 (script.pairs Change.opacities?) time
  flipH := script.shows .flipH time
  flipV := script.shows .flipV time
  additive := script.shows .additive time

end Script
end Tween
