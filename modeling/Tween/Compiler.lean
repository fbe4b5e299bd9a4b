import Tween.Compiler.Capture
import Tween.Compiler.Emission

/-! The compiler of one object: states are added in any order, and a pass turns them into
commands on a sink. A pass leaves nothing behind but the settings. -/

namespace Tween

structure Compiler (α : Type) where
  config : Config α
  states : List (State α) := []

namespace Compiler
variable {α σ : Type} [Scalar α]

def startState? (c : Compiler α) : Option (State α) := c.states.head?

def endState? (c : Compiler α) : Option (State α) := c.states.getLast?

/-- Keeps the states in time order, behind those of the same time. -/
def add (c : Compiler α) (state : State α) : Except (Problem α) (Compiler α) := do
  let state ← state.checked
  let append := c.states.getLast?.all fun last => last.time ≤ state.time
  let states :=
    if append then c.states ++ [state]
    else c.states.insertIdx (leadingCount (fun s => s.time ≤ state.time) c.states) state
  return { c with states }

variable [Sink σ α]

/-- The size of the sink's bitmap; an unknown bitmap counts as one pixel. -/
def bitmapSize (sizes : String → Option (Vec2 α)) (sink : σ) : Vec2 α :=
  (sizes (Sink.texturePath sink)).getD ⟨1.0, 1.0⟩

def isVisible (c : Compiler α) (sink : σ) (sizes : String → Option (Vec2 α)) (state : State α) : Bool :=
  state.isVisible (bitmapSize sizes sink) (Sink.origin sink) c.config

/-- All buffered states captured for the sink. -/
def capture (c : Compiler α) (sink : σ) (sizes : String → Option (Vec2 α)) (timeOffset : α) : Capture α :=
  Capture.run c.config (bitmapSize sizes sink) timeOffset (c.isVisible sink sizes) c.states

/-- One pass. If the object is ever visible, `wrapper` receives the emission and the sink and
decides when to run it, for instance inside a loop that the caller opens; otherwise it is not
called. The answer says which of both happened. -/
def compileWith {m : Type → Type} [Monad m] (c : Compiler α) (sink : σ)
    (sizes : String → Option (Vec2 α)) (options : PassOptions α) (wrapper : (σ → σ) → σ → m σ) :
    m (Bool × σ × Compiler α) := do
  let capture := c.capture sink sizes options.timeOffset
  let sink ←
    if capture.begun then
      let emission : Emission α :=
        { config := c.config, tracks := capture.tracks, bitmapSize := bitmapSize sizes sink, options }
      wrapper emission.run sink
    else pure sink
  return (capture.begun, sink, { config := c.config })

/-- A pass that emits straight onto the sink. -/
def compile (c : Compiler α) (sink : σ) (sizes : String → Option (Vec2 α)) (options : PassOptions α) :
    Bool × σ × Compiler α :=
  Id.run (c.compileWith sink sizes options fun emit sink => pure (emit sink))

end Compiler
end Tween
